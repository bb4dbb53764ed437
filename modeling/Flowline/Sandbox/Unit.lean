import Flowline.Json.Reader
import Flowline.Run.Context
import Flowline.Sandbox.Input
import Flowline.Sandbox.Launch
import Flowline.Sandbox.Output
import Flowline.Sandbox.Program
import Flowline.Text.Scan

/-! One sandbox unit per node: what it is given, how it is started, and how its end is classified. -/
namespace Flowline

/-- What a unit runs. -/
inductive EntryPoint where
  /-- A script of the node types, found by the unit itself. -/
  | script (name : String)
  | code (text : String)
  /-- A file in a folder that the unit may read. -/
  | file (folder name : String)

structure UnitRequest where
  node : String
  type : String
  language : Language
  entry : EntryPoint
  params : Fields := []
  inputs : Fields := []
  /-- An entry file is checked like code. -/
  scanEntry : Bool := false
  /-- Paths by dataset name. -/
  datasets : List (String × String) := []

namespace UnitRequest

/-- A name in which only ASCII letters, digits, `-` and `_` are left. -/
def plainName (s : String) : String :=
  String.ofList (s.toList.map fun c => if c.isAlphanum || c == '-' || c == '_' then c else '_')

/-- The name of a unit; the tag makes it unique. -/
def unitName (node tag : String) : String :=
  let node := plainName node
  s!"xp-{node}-{tag}"

def datasetMount (name path : String) : Mount := ⟨"dataset-" ++ plainName name, path⟩

def mounts (r : UnitRequest) : List Mount :=
  (sortedByKey r.datasets).map (fun (name, path) => datasetMount name path)
    ++ match r.entry with
      | .file folder _ => [⟨"entry", folder⟩]
      | _ => []

/-- The input of the unit. -/
def input (r : UnitRequest) (mode : SandboxMode) (security : Policy) (c : Context) : UnitInput where
  type := r.type
  params := r.params
  inputs := r.inputs
  context := {
    runId := c.runId
    pipelineId := c.pipelineId
    nodeId := r.node
    language := r.language
    datasets := (sortedByKey r.datasets).map fun (name, path) =>
      (name, mode.mountPath (datasetMount name path))
    entry := match r.entry with
      | .script name => some name
      | .code _ => none
      | .file folder name => some (Path.join (mode.mountPath ⟨"entry", folder⟩) name)
    code := match r.entry with
      | .code text => some text
      | _ => none
    scanEntry := r.scanEntry
    security }

end UnitRequest

namespace SandboxSettings

/-- The program that starts a unit. -/
def program (s : SandboxSettings) : Except SandboxError String :=
  match s.mode, s.guestCommand with
  | .docker, _ => .ok s.dockerBinary
  | .process, program :: _ => .ok program
  | .process, [] => .error (.launchFailed "guest command is empty")

/-- The error when a unit's program cannot be started. -/
def launchError (s : SandboxSettings) (program : String) (fault : FileError) : SandboxError :=
  let message := s!"{program}: {fault.message}"
  match s.mode with
  | .process => .launchFailed message
  | .docker => .unavailable message

/-- Seconds that a unit may take, at least one. -/
def timeLimit (s : SandboxSettings) : Nat := max 1 s.timeout

end SandboxSettings

/-- How a unit ended, as its host sees it. One that could not be waited for has neither an exit code
nor a signal. -/
structure UnitExit where
  code? : Option Int := none
  signal? : Option Int := none
  /-- The end of the error output. -/
  tail : String := ""
deriving DecidableEq, Inhabited

namespace UnitExit

/-- Bytes of error output that are kept. -/
def errorTail : Nat := 4096

def ofRun (r : ProgramRun) : UnitExit where
  code? := r.exit.code?.map Int.ofNat
  signal? := r.exit.signal?.map Int.ofNat
  tail := Text.trim (Text.lastBytes errorTail r.stderr)

/-- The exit code of units that were killed. -/
def killedCode : Int := 137

def killSignal : Int := 9

/-- The unit was killed, most likely by the machine itself. -/
def wasKilled (e : UnitExit) : Bool := e.code? == some killedCode || e.signal? == some killSignal

end UnitExit

namespace UnitEnd

/-- A message and the end of the error output. -/
def withTail (message : String) (e : UnitExit) : Output :=
  .ofError (if e.tail.isEmpty then message else message ++ ": " ++ e.tail)

def killed : String :=
  s!"sandbox unit was forcibly killed (exit code {UnitExit.killedCode}); "
    ++ "it may have exceeded its memory limit"

def noOutput (e : UnitExit) : String :=
  "sandbox did not produce output" ++ match e.code? with
    | some 0 => ""
    | some n => s!" (exit code {n})"
    | none => " (terminated by signal)"

def unreadable : String := "sandbox produced unreadable output"

/-- The bytes of the output file. -/
def outputFile (r : ProgramRun) : Except FileError ByteArray :=
  match r.output with
  | some text => .ok text.toUTF8
  | none => .error .missing

/-- The value that bytes spell as JSON text. -/
def value? (bytes : ByteArray) : Option Value := (String.fromUTF8? bytes).bind Json.read

/-- Classifies a unit that has ended by itself. -/
def classify (e : UnitExit) (file : Except FileError ByteArray) : Except SandboxError Output :=
  if e.wasKilled then .ok (withTail killed e)
  else match file with
    | .error .missing => .ok (withTail (noOutput e) e)
    | .error fault => .error (.io fault.message)
    | .ok bytes => match value? bytes with
      | some v => .ok (.ofValue v)
      | none => .ok (.ofError unreadable)

def timedOut (seconds elapsed : Nat) : Output := .ofViolation {
  kind := .timeout
  message := s!"sandbox unit exceeded the {seconds}s wall-clock limit"
  details := .map [("elapsedMs", .ofNat elapsed)] }

end UnitEnd

/-- How the wait for a unit ends. -/
inductive UnitEnding where
  /-- The unit could not be started. -/
  | failed (e : SandboxError)
  /-- The unit ended by itself, with this output file. -/
  | exited (e : UnitExit) (file : Except FileError ByteArray)
  | timedOut (seconds elapsed : Nat)
  | cancelled

def UnitEnding.outcome : UnitEnding → Except SandboxError Output
  | failed e => .error e
  | exited e file => UnitEnd.classify e file
  | timedOut seconds elapsed => .ok (UnitEnd.timedOut seconds elapsed)
  | cancelled => .error .cancelled

/-- Where units are started. -/
structure UnitHost where
  settings : SandboxSettings := {}
  security : Policy := {}
  /-- Runs a program on the input of a unit. -/
  start : String → UnitInput → Except FileError ProgramRun

namespace UnitHost

/-- Milliseconds that it takes at least to prepare a unit, and to run its program. -/
def leastTime : Nat := 1

/-- How a unit ends, and after how long; a stopped one ends as soon as it has been started. -/
def ending (h : UnitHost) (stopped : Bool) (c : Context) (r : UnitRequest) : UnitEnding × Nat :=
  match h.settings.program with
  | .error e => (.failed e, leastTime)
  | .ok program => match h.start program (r.input h.settings.mode h.security c) with
    | .error fault => (.failed (h.settings.launchError program fault), leastTime)
    | .ok run =>
      let time := leastTime + max leastTime run.duration
      let limit := h.settings.timeLimit
      if stopped then (.cancelled, leastTime + leastTime)
      else if limit * 1000 < run.duration then (.timedOut limit run.duration, time)
      else (.exited (.ofRun run) (UnitEnd.outputFile run), time)

/-- Runs a unit to its end. -/
def run (h : UnitHost) (stopped : Bool) (c : Context) (r : UnitRequest) :
    Except SandboxError Output × Nat :=
  let (ending, time) := h.ending stopped c r
  (ending.outcome, time)

end UnitHost
end Flowline
