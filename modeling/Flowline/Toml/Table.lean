import Flowline.Data.Value

/-! The tables of a TOML document. A table remembers how it came about, since that decides what may
still be added to it; the finished document is a `Datum`. -/
namespace Flowline.Toml

/-- A TOML value. -/
inductive Datum where
  | str (s : String)
  | int (n : Int)
  | float (x : Float)
  | bool (b : Bool)
  /-- A date, a time or both, in normal form. -/
  | moment (text : String)
  | list (items : List Datum)
  | table (entries : List (String × Datum))
  /-- A value with the number of characters that are left where it starts. -/
  | placed (left : Nat) (d : Datum)
deriving Inhabited

/-- How a table was introduced. -/
inductive Origin where
  /-- by its own header, where so many characters are left -/
  | header (left : Nat)
  /-- on the way to a deeper header -/
  | implied
  /-- by a dotted key -/
  | dotted

def Origin.isHeader : Origin → Bool
  | header _ => true
  | _ => false

inductive Item where
  | value (d : Datum)
  | table (origin : Origin) (entries : List (String × Item))
  /-- A table per `[[header]]`; the last one is open. -/
  | tables (closed : List (List (String × Item))) (last : List (String × Item))
deriving Inhabited

abbrev Entries := List (String × Item)

def Entries.set (es : Entries) (k : String) (i : Item) : Entries :=
  if es.any (·.1 == k) then es.map fun e => if e.1 == k then (k, i) else e else es ++ [(k, i)]

/-- Changes the table at the end of a path. Missing tables on the way get the given origin, and
present ones may be entered if their origin is admitted. -/
def Entries.update (origin : Origin) (admits : Origin → Bool) (f : Entries → Option Entries) :
    List String → Entries → Option Entries
  | [], es => f es
  | k :: path, es => do
    let inner := Entries.update origin admits f path
    match es.lookup k with
    | none => return es.set k (.table origin (← inner []))
    | some (.table o child) => if admits o then return es.set k (.table o (← inner child)) else none
    | some (.tables closed last) => return es.set k (.tables closed (← inner last))
    | some (.value _) => none

/-- Opens `[path.key]` where so many characters are left. -/
def Entries.openTable (es : Entries) (left : Nat) (path : List String) (key : String) :
    Option Entries :=
  es.update .implied (fun _ => true) (fun t => match t.lookup key with
    | none => some (t.set key (.table (.header left) []))
    | some (.table .implied child) => some (t.set key (.table (.header left) child))
    | some _ => none) path

/-- Opens the next table of `[[path.key]]`. -/
def Entries.openElement (es : Entries) (path : List String) (key : String) : Option Entries :=
  es.update .implied (fun _ => true) (fun t => match t.lookup key with
    | none => some (t.set key (.tables [] []))
    | some (.tables closed last) => some (t.set key (.tables (closed ++ [last]) []))
    | some _ => none) path

/-- Adds `path.key = d` to the table under `header`; the key is new. -/
def Entries.assign (es : Entries) (header path : List String) (key : String) (d : Datum) :
    Option Entries :=
  es.update .implied (fun _ => true)
    (fun t => t.update .dotted (! ·.isHeader)
      (fun u => if (u.lookup key).isSome then none else some (u.set key (.value d))) path) header

mutual

def Item.datum : Item → Datum
  | .value d => d
  | .table (.header left) es => .placed left (.table (entryData es))
  | .table _ es => .table (entryData es)
  | .tables closed last => .list (tableData closed ++ [.table (entryData last)])

def entryData : List (String × Item) → List (String × Datum)
  | [] => []
  | (k, i) :: rest => (k, i.datum) :: entryData rest

def tableData : List (List (String × Item)) → List Datum
  | [] => []
  | es :: rest => .table (entryData es) :: tableData rest

end

/-- Keys in ascending order. -/
def sortFields (fs : Fields) : Fields := fs.mergeSort fun a b => a.1 ≤ b.1

mutual

/-- The document value: tables are sorted by key, moments are texts, floats that are not finite
are null. -/
def Datum.toValue : Datum → Value
  | .str s => .str s
  | .int n => .int n
  | .float x => .ofFloat x
  | .bool b => .bool b
  | .moment t => .str t
  | .list items => .list (itemValues items)
  | .table es => .map (sortFields (fieldValues es))
  | .placed _ d => d.toValue

def itemValues : List Datum → List Value
  | [] => []
  | d :: rest => d.toValue :: itemValues rest

def fieldValues : List (String × Datum) → Fields
  | [] => []
  | (k, d) :: rest => (k, d.toValue) :: fieldValues rest

end

/-! Places in a TOML text, and the place that is to blame when a document is not of the wanted form. -/

/-- A line and a column, counted from one. -/
structure Place where
  line : Nat
  column : Nat
deriving Inhabited

namespace Place

/-- The place after some text, its characters as wide as given. -/
def after (before : List Char) (width : Char → Nat) : Place :=
  let line := (before.reverse.takeWhile (· != '\n')).map width
  ⟨before.count '\n' + 1, line.foldl (· + ·) 1⟩

/-- The place in a text where so many characters are left. The end is one column after the last
character. Columns count characters, and bytes if the character at the place is not ASCII. -/
def ofLeft (source : List Char) (left : Nat) : Place :=
  let before := source.take (source.length - left)
  match source.drop before.length with
  | [] =>
    let last := after source.dropLast fun _ => 1
    ⟨last.line, last.column + 1⟩
  | c :: _ => after before fun d => if c.utf8Size = 1 then 1 else d.utf8Size

def text (p : Place) : String := s!"line {p.line}, column {p.column}"

end Place

mutual

/-- Where the smallest part starts that alone makes a document unfit. Parts without a place of their
own stand where the whole does. -/
def Datum.culprit (fits : Datum → Bool) (left : Nat) : Datum → Nat
  | .placed n d => d.culprit fits n
  | .list items => itemCulprit fits left items
  | .table es => fieldCulprit fits left es
  | _ => left

def itemCulprit (fits : Datum → Bool) (left : Nat) : List Datum → Nat
  | [] => left
  | d :: rest =>
    if fits (.list [d]) then itemCulprit fits left rest
    else d.culprit (fun e => fits (.list [e])) left

def fieldCulprit (fits : Datum → Bool) (left : Nat) : List (String × Datum) → Nat
  | [] => left
  | (k, d) :: rest =>
    if fits (.table [(k, d)]) then fieldCulprit fits left rest
    else d.culprit (fun e => fits (.table [(k, e)])) left

end

end Flowline.Toml
