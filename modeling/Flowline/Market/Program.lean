import Flowline.Json.Printer
import Flowline.Market.Backtest
import Flowline.Market.Feature
import Flowline.Market.Label
import Flowline.Market.Loader
import Flowline.Sandbox.Program

/-! The market scripts as programs: each writes a document with its result or its failure. -/
namespace Flowline.Market

/-- What a script is given: its parameters, the outputs of its dependencies, its context, and the
files that it can read. -/
abbrev Program := Fields → Fields → Value → Entry → Script Value

/-- The scripts by the node types that they serve. -/
def programs : List (String × Program) :=
  [("DataLoaderNode", fun params _ context files => Loader.load params context files),
   ("FeatureGeneratorNode", fun params inputs _ _ => Feature.generate params inputs),
   ("LabelingNode", fun params inputs _ _ => Label.label params inputs),
   ("BacktestNode", fun params inputs _ _ => Backtest.backtest params inputs)]

mutual

/-- Floats that are not finite become null. -/
def finite : Value → Value
  | .float x => .ofFloat x
  | .list vs => .list (finiteItems vs)
  | .map fs => .map (finiteFields fs)
  | v => v

def finiteItems : List Value → List Value
  | [] => []
  | v :: rest => finite v :: finiteItems rest

def finiteFields : List (String × Value) → List (String × Value)
  | [] => []
  | (k, v) :: rest => (k, finite v) :: finiteFields rest

end

/-- Runs a script on its payload; what is missing there is empty. -/
def Program.apply (p : Program) (payload : Value) (files : Entry) : Script Value := do
  let part (key : String) : Value := orElse (payload.get? key) (.map [])
  p (← asFields (part "params")) (← asFields (part "inputs")) (part "context") files

/-- The run of a script on its payload. -/
def Program.run (p : Program) (type : String) (payload : Value) (files : Entry) : ProgramRun :=
  let (result, printed) := (p.apply payload files).outcome
  let stdout := String.join (printed.map (· ++ "\n"))
  match result with
  | .ok v =>
    { stdout, output := some (Json.compact (.map [("success", .bool true), ("result", finite v)])) }
  | .error fault =>
    let error := s!"{type} failed: {fault.message}"
    { stdout, stderr := error ++ "\n", exit := .code 1
      output := some (Json.compact (.map [("success", .bool false), ("error", .str error)])) }

/-- The run of the script of a node type, if there is one. -/
def runScript? (type : String) (payload : Value) (files : Entry) : Option ProgramRun :=
  (programs.lookup type).map fun p => p.run type payload files

end Flowline.Market
