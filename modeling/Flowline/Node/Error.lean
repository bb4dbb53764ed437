/-! Errors in the work of a node. -/
namespace Flowline

inductive NodeError where
  | config (message : String)
  | input (message : String)
  | missingColumn (node column : String)
  | execution (message : String)
  | serialization (message : String)
  | cancelled
deriving DecidableEq, Inhabited

def NodeError.message : NodeError → String
  | config m => s!"Configuration error: {m}"
  | input m => s!"Input error: {m}"
  | missingColumn node column => s!"Missing column '{column}' in input of node {node}"
  | execution m => s!"Execution error: {m}"
  | serialization m => s!"Serialization error: {m}"
  | cancelled => "Cancelled"

end Flowline
