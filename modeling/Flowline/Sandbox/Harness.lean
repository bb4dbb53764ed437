import Flowline.Files.Tree
import Flowline.Guard.Basic
import Flowline.Json.Reader
import Flowline.Sandbox.Inline
import Flowline.Sandbox.Language
import Flowline.Sandbox.Monitor
import Flowline.Sandbox.Program
import Flowline.Sandbox.Input

/-! The program inside a unit: it checks the code, runs the interpreter within the limits, and
classifies what that leaves behind. -/
namespace Flowline.Harness

/-- What an interpreter is given to run. -/
inductive Script where
  /-- Inline code, made into a script. -/
  | inline (source : String)
  /-- A script file, which also gets the paths of its input and of its output file. -/
  | entry (path : String)

/-- What the harness finds in its unit. -/
structure Surroundings where
  files : Entry
  /-- The folder of the scripts of the node types. -/
  nodesFolder : String
  interpreters : Interpreters := {}
  /-- Runs an interpreter. -/
  start : Language → Script → Except FileError ProgramRun
  /-- Resident memory as the samples will find it. -/
  readings : List Nat := []

/-- Most lines of output that are kept. -/
def maxLogLines : Nat := 200

/-- Lines of error output that are kept. -/
def errorTail : Nat := 20

/-- The data that inline code sees: all but the code itself. -/
def payload (input : UnitInput) : Value :=
  match input.toValue with
  | .map fs => .map (fs.map fun (k, v) => match k, v with
      | "context", .map cs => (k, .map (Fields.remove cs "code"))
      | _, v => (k, v))
  | v => v

/-- The code is refused if it does what the policy forbids. -/
def check (input : UnitInput) (source : String) : Except Output Unit :=
  match Guard.refusal? input.context.security input.context.language source with
  | none => .ok ()
  | some refusal => .error (.ofViolation refusal.violation)

/-- The script of an input. Code comes before an entry script; entry scripts are checked on request. -/
def script (s : Surroundings) (marker : String) (input : UnitInput) : Except Output Script :=
  let c := input.context
  match c.code, c.entry with
  | some code, _ => do
    check input code
    return .inline (Inline.wrap c.language code (payload input) marker)
  | none, some entry =>
    let path := Path.join s.nodesFolder entry
    match s.files.read path with
    | .error _ => .error (.ofError s!"entry script not found: {path}")
    | .ok source => do
      if c.scanEntry then check input source
      return .entry path
  | none, none => .error (.ofError "sandbox input names neither code nor an entry script")

/-- The rest of a line behind the marker. -/
def marked? (marker line : String) : Option String :=
  if marker.toList.isPrefixOf line.toList then
    some (String.ofList (line.toList.drop marker.length))
  else none

/-- What a script hands over: inline code prints it on the last marked line, an entry script
writes a file. -/
def handedOver (script : Script) (marker : String) (r : ProgramRun) : Option String :=
  match script with
  | .inline _ => ((Text.lines r.stdout).filterMap (marked? marker)).getLast?
  | .entry _ => r.output

/-- The first lines of output, without marked ones. -/
def logsOf (script : Script) (marker : String) (r : ProgramRun) : List String :=
  let lines := Text.lines r.stdout
  let lines := match script with
    | .inline _ => lines.filter fun l => (marked? marker l).isNone
    | .entry _ => lines
  lines.take maxLogLines

/-- The interpreter ended without handing anything over. -/
def silentEnd (r : ProgramRun) (usage : Usage) : Violation :=
  let code := (r.exit.code?.map toString).getD "signal"
  let lines := Text.lines r.stderr
  let tail := "\n".intercalate (lines.drop (lines.length - errorTail))
  {
    kind := .runtimeError
    message := s!"guest exited ({code}) without writing output"
      ++ (if lines.isEmpty then "" else ": " ++ tail)
    details := .map [("exitCode", .ofOption (r.exit.code?.map .ofNat)),
      ("elapsedMs", .ofNat usage.elapsed)] }

/-- Classifies what an interpreter left behind. -/
def outcome (s : Surroundings) (policy : Policy) (script : Script) (marker : String)
    (r : ProgramRun) : Output :=
  let logs := logsOf script marker r
  match Monitor.supervise policy s.readings r.duration with
  | (some breach, _) => (Output.ofViolation breach).log logs
  | (none, usage) =>
    match handedOver script marker r with
    | none => (Output.ofViolation (silentEnd r usage)).log logs
    | some text => match Json.read text with
      | none => .ofError "guest wrote unreadable output"
      | some v => ((Output.ofValue v).log logs).withUsage usage

/-- Runs the code of an input. -/
def run (s : Surroundings) (marker : String) (input : UnitInput) : Output :=
  let language := input.context.language
  match script s marker input with
  | .error refused => refused
  | .ok script => match s.start language script with
    | .error fault =>
      .ofError s!"cannot start interpreter '{s.interpreters.program language}': {fault.message}"
    | .ok r => outcome s input.context.security script marker r

/-- The input of a unit, if the text of its input file is one. -/
def input? (text : String) : Option UnitInput := (Json.readRecord text).bind UnitInput.decode

end Flowline.Harness
