import Flowline.Catalog.Builtin
import Flowline.Node.Basic
import Flowline.Series.Indicator

/-! Groups of rows, each reduced to one record. -/
namespace Flowline.Node

/-- A group of rows with the value that they share. -/
structure Group where
  key : Value
  rows : List Fields
deriving Inhabited

/-- Adds a row to the group of its key; a new key opens a group at the end. -/
def addToGroup (key : Value) (row : Fields) : List Group → List Group
  | [] => [⟨key, [row]⟩]
  | g :: rest =>
    if g.key.same key then { g with rows := g.rows ++ [row] } :: rest
    else g :: addToGroup key row rest

/-- The groups in order of their first rows. Without a column all rows are one group, even if there
are none. -/
def groups (column : Option String) (rows : List Fields) : List Group :=
  match column with
  | some c => rows.foldl (fun gs row => addToGroup ((Fields.get? row c).getD .null) row gs) []
  | none => [⟨.null, rows⟩]

/-- The value of an operation over a group; without a column there are no cells to work on. -/
def reduce (op : String) (column : Option String) (rows : List Fields) : Except NodeError Value :=
  let cells : List Value := match column with
    | some c => (rows.filterMap fun row => Fields.get? row c).filter fun v => !Value.isNull v
    | none => []
  let numbers := cells.filterMap Value.number?
  let best (choose : Float → Float → Float) : Value := match numbers with
    | [] => .null
    | x :: xs => .ofFloat (xs.foldl choose x)
  match op with
  | "count" => .ok (.ofNat (if column.isSome then cells.length else rows.length))
  | "first" => .ok (.ofOption cells.head?)
  | "last" => .ok (.ofOption cells.getLast?)
  | "sum" => .ok (.ofFloat (Series.sum numbers))
  | "mean" => .ok (if numbers.isEmpty then .null
      else .ofFloat (numbers.foldl (· + ·) 0.0 / Float.ofNat numbers.length))
  | "min" => .ok (best Series.smaller)
  | "max" => .ok (best Series.larger)
  | op => .error (.config s!"unknown aggregation '{op}'")

/-- Adds the value of one aggregation to the record of a group. -/
def aggregateInto (i : Invocation) (frame : Frame) (g : Group) (record : Fields) (spec : Value) :
    Except NodeError Fields := do
  let name ← match Builtin.aggregationColumn? spec with
    | some name => .ok name
    | none => .error (NodeError.config "aggregation is missing 'op'")
  let op := ((spec.get? "op").bind Value.asStr?).getD ""
  let column := (spec.get? "column").bind Value.asStr?
  if let some c := column then frame.requireColumn i.node c
  return record.insert name (← reduce op column g.rows)

def aggregate (i : Invocation) : Except NodeError Value := do
  let frame ← i.singleFrame
  let specs ← match (i.params.get? "aggregations").bind Value.asList? with
    | some specs => .ok specs
    | none => .error (NodeError.config "aggregations must be an array")
  let column := i.text? "group_by"
  if let some c := column then frame.requireColumn i.node c
  let gs := groups column frame.rows
  let rows ← gs.mapM fun g =>
    let start : Fields := match column with
      | some c => [(c, g.key)]
      | none => []
    specs.foldlM (aggregateInto i frame g) start
  return (({ rows } : Frame).note "groups" (.ofNat gs.length)).toValue

end Flowline.Node
