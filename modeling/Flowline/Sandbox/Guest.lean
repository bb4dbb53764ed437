import Flowline.Config
import Flowline.Market.Program
import Flowline.Sandbox.Harness
import Flowline.Sandbox.Unit

/-! The usual program of a unit: it runs the code of its input and writes what comes of it. The
market scripts are the entry scripts that it knows. -/
namespace Flowline.Guest

/-- The node type that an entry script serves. -/
def servedType (path : String) : String :=
  let name := (Path.segments path).getLast?.getD path
  if name.endsWith ".py" then (name.dropEnd 3).toString else name

/-- Interprets an entry script. Other code has no interpreter. -/
def interpret (i : Interpreters) (files : Entry) (input : UnitInput) (l : Language)
    (script : Harness.Script) : Except FileError ProgramRun :=
  match script with
  | .entry path =>
    let known := Market.runScript? (servedType path) input.toValue files
    if i.program l == ({} : Interpreters).program l then known.elim (.error .missing) .ok
    else .error .missing
  | .inline _ => .error .missing

/-- The run of the program on an input. -/
def run (i : Interpreters) (files : Entry) (nodesFolder marker : String) (input : UnitInput) :
    ProgramRun :=
  let s : Harness.Surroundings := {
    files, nodesFolder, interpreters := i, start := interpret i files input }
  { output := some (Json.compact (Harness.run s marker input).toValue) }

/-- The name of the program. -/
def programName : String := "xpipeline-guest"

def resultMarker : String := "__xpipeline_result__"

/-- Where units run this program. No other program can be started, nor any container. -/
def units (files : Entry) (c : Config) : UnitHost where
  settings := c.sandbox
  security := c.security
  start program input :=
    if program == programName && c.sandbox.mode = .process then
      .ok (run c.interpreters files c.paths.nodes resultMarker input)
    else .error .missing

end Flowline.Guest
