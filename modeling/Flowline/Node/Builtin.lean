import Flowline.Node.Aggregate
import Flowline.Node.Crossover
import Flowline.Node.Indicator

/-! The node types that are executed in the engine's own process. -/
namespace Flowline.Node

/-- The named columns of a record; a column is used up by its first mention. -/
def project (columns : List String) (row : Fields) : Fields :=
  (columns.foldl (fun (acc, row) c =>
    (Fields.insert acc c ((Fields.get? row c).getD .null), Fields.remove row c))
    (([] : Fields), row)).1

/-- A source of the records among its own parameters. -/
def inlineData (i : Invocation) : Except NodeError Value := do
  let rows ← match i.params.get? "rows" with
    | some rows => .ok rows
    | none => .error (NodeError.config "rows is required")
  let frame ← Frame.ofValue rows
  let frame := { frame with shape := .dataframe }
  let frame := match (i.params.get? "columns").bind Value.asList? with
    | some columns =>
      { frame with rows := frame.rows.map (project (columns.filterMap Value.asStr?)) }
    | none => frame
  return (frame.note "source" (.str "inline")).toValue

def builtins : List (String × (Invocation → Except NodeError Value)) :=
  [("AggregateNode", aggregate), ("CrossoverSignalNode", crossover), ("IndicatorNode", indicator),
    ("InlineDataNode", inlineData)]

def isBuiltin (type : String) : Bool := builtins.any (·.1 == type)

/-- Executes a builtin node. -/
def executeBuiltin (cancelled : Bool) (i : Invocation) : NodeResult :=
  if cancelled then .fail i.node NodeError.cancelled.message
  else match builtins.lookup i.type with
    | none => .fail i.node s!"no builtin handler for '{i.type}'"
    | some execute => match execute i with
      | .ok output => .succeed i.node output
      | .error e => .fail i.node e.message

end Flowline.Node
