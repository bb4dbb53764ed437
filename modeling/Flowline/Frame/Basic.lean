import Flowline.Catalog.Shape
import Flowline.Decimal.Reader
import Flowline.Document.Basic
import Flowline.Node.Error
import Flowline.Text.Blank

/-! Frames: the records that nodes hand to each other, with named columns. -/
namespace Flowline

/-- A numeric column; a cell without a number is none. -/
abbrev Series := List (Option Float)

/-- The number in a cell: numerals in text count, and booleans as 1 and 0. -/
def Value.number? : Value → Option Float
  | .str s => Decimal.float? (Text.trim s).toList
  | .bool b => some (if b then 1.0 else 0.0)
  | v => v.asFloat?

/-- A number in a cell; what is missing or not finite becomes null. -/
def Value.ofFloat? : Option Float → Value
  | some x => .ofFloat x
  | none => .null

structure Frame where
  shape : Shape := .dataframe
  rows : List Fields
  metadata : Fields := []
deriving Inhabited

namespace Frame

/-- What a value is called when records were expected. -/
def describe : Value → String
  | .null => "null"
  | .bool _ => "a boolean"
  | .int _ | .float _ => "a number"
  | .str _ => "a string"
  | .list _ => "an array"
  | .map _ => "an object"

def records (items : List Value) : Except NodeError (List Fields) :=
  items.zipIdx.mapM fun (item, i) =>
    match item with
    | .map fs => .ok fs
    | v => .error (.input s!"record {i} is {describe v}, expected an object")

/-- Reads a frame; a bare list of records is one. -/
def ofValue : Value → Except NodeError Frame
  | .list items => do return { rows := ← records items }
  | .map fs => do
    let fs : Fields := fs
    let data ← match (fs.get? "data").bind Value.asList? with
      | some data => .ok data
      | none => .error (NodeError.input "input has no 'data' records")
    return {
      shape := (((fs.get? "type").bind Value.asStr?).bind Shape.ofName?).getD .dataframe
      rows := ← records data
      metadata := ((fs.get? "metadata").bind Value.asMap?).getD [] }
  | v => .error (.input s!"expected a dataframe, got {describe v}")

/-- The columns in order of first appearance. -/
def columns (f : Frame) : List String :=
  f.rows.foldl (fun seen row =>
    seen ++ distinct ((Fields.keys row).filter fun k => !seen.contains k)) []

def toValue (f : Frame) : Value :=
  let metadata := (f.metadata.insert "rows" (.ofNat f.rows.length)).insert "columns"
    (.strs f.columns)
  .map [("type", .str f.shape.name), ("data", .list (f.rows.map .map)), ("metadata", .map metadata)]

def note (f : Frame) (key : String) (v : Value) : Frame :=
  { f with metadata := f.metadata.insert key v }

def hasColumn (f : Frame) (column : String) : Bool := f.rows.any fun row => Fields.has row column

def requireColumn (f : Frame) (node column : String) : Except NodeError Unit :=
  if f.hasColumn column then .ok () else .error (.missingColumn node column)

def numbers (f : Frame) (column : String) : Series :=
  f.rows.map fun row => (Fields.get? row column).bind Value.number?

/-- Writes numbers into the rows, first to first; rows beyond the numbers stay as they are. -/
def writeColumn (column : String) : List Fields → Series → List Fields
  | row :: rows, x :: xs =>
    Fields.insert row column (Value.ofFloat? x) :: writeColumn column rows xs
  | rows, _ => rows

def setColumn (f : Frame) (column : String) (values : Series) : Frame :=
  { f with rows := writeColumn column f.rows values }

/-- Adds the fields whose keys are not there yet. -/
def complete (row : Fields) (other : Fields) : Fields :=
  other.foldl (fun row (k, v) => if Fields.has row k then row else row ++ [(k, v)]) row

/-- The row together with the first row of `others` that has the same value under `key`. -/
def joinRow (key : String) (others : List Fields) (row : Fields) : Option Fields := do
  let v ← Fields.get? row key
  let other ← others.find? fun o => (Fields.get? o key).any (v.same ·)
  return complete row other

/-- Joins frames on a column. Rows keep the order of the first frame, and those without a partner
in every other frame are dropped; where frames share a column the earlier one wins. -/
def join (key : String) : List Frame → Except NodeError Frame
  | [] => .error (.input "no input frames")
  | first :: rest => rest.foldlM (fun merged other =>
      if other.hasColumn key then
        .ok { merged with rows := merged.rows.filterMap (joinRow key other.rows) }
      else .error (.input s!"all inputs must have a '{key}' column")) first

end Frame
end Flowline
