import Flowline.Command.Line
import Flowline.Plan.Basic
import Flowline.Setup

/-! What the commands do with the files of a working folder. -/
namespace Flowline

/-- What a command leaves behind. -/
structure Response where
  exit : Nat := 0
  stdout : String := ""
  stderr : List String := []
  files : Entry

inductive CommandFault where
  | pipeline (error : PipelineError)
  | compilation (failure : CompileFailure)
  | unreadableFile (path : String) (fault : FileError)
  | unwritableFile (path : String) (fault : FileError)

namespace CommandFault

/-- What is reported before the fault itself: errors before warnings. -/
def diagnosticLines (r : Report) : List String := (r.errors ++ r.warnings).map Diagnostic.text

/-- The lines of a fault, with its cause at the end. -/
def lines : CommandFault → List String
  | pipeline e => [s!"Error: {e.message}"]
  | compilation f => diagnosticLines f.report ++ [s!"Error: {f.message}"]
  | unreadableFile path fault => caused s!"cannot read pipeline file {path}" fault
  | unwritableFile path fault => caused s!"cannot write {path}" fault
where
  caused (message : String) (fault : FileError) : List String :=
    [s!"Error: {message}", "", "Caused by:", "    " ++ fault.message]

end CommandFault

namespace CommandLine

/-- Things of the world outside that a command needs. -/
structure Circumstances where
  now : Moment
  /-- The run id if none is given. -/
  freshId : String
  /-- Where units are started under a configuration. -/
  units : Config → UnitHost

def loadConfig (l : CommandLine) (files : Entry) : Except CommandFault Config :=
  match l.option? .config with
  | none => .ok {}
  | some path => match files.read path with
    | .error fault => .error (.pipeline (.config s!"cannot read {path}: {fault.message}"))
    | .ok text => (Config.parse text).mapError fun place =>
      .pipeline (.config s!"TOML parse error at {place.text}")

/-- What follows the last point of a file name, unless that is its first character. -/
def suffix (path : String) : String :=
  let name := (((Path.segments path).filter (! ·.isEmpty)).getLast?.getD "").toList
  match (name.reverse.span (· ≠ '.')) with
  | (ending, _ :: _ :: _) => String.ofList ending.reverse
  | _ => ""

def sourceFormat (l : CommandLine) : Format :=
  let named := (l.option? .format).bind fun name => formatNames.lookup name
  named.getD (Format.ofExtension (suffix l.file))

def readSource (l : CommandLine) (files : Entry) : Except CommandFault String :=
  (files.read l.file).mapError (.unreadableFile l.file)

/-- Writes a result into the output file, or prints it. -/
def emit (l : CommandLine) (content : String) (files : Entry) : Except CommandFault Response :=
  match l.option? .output with
  | none => .ok { stdout := content ++ "\n", files }
  | some path => match files.write path content with
    | .ok files => .ok { files }
    | .error fault => .error (.unwritableFile path fault)

def exitOf : RunStatus → Nat
  | .completed => 0
  | .cancelled => 130
  | _ => 1

def compiled (s : Setup) (source : String) (format : Format) (now : Moment) :
    Except CommandFault Plan :=
  (Plan.compile s.catalog source format now).mapError .compilation

def execute (l : CommandLine) (circumstances : Circumstances) (files : Entry) :
    Except CommandFault Response := do
  let config ← l.loadConfig files
  let s ← (Setup.ofConfig config files).mapError .pipeline
  let source ← l.readSource files
  let format := l.sourceFormat
  match l.command with
  | .validate =>
    let report := Plan.diagnose s.catalog source format circumstances.now
    let r ← l.emit (Json.pretty report.toValue) files
    if report.isValid then return r
    else return { r with exit := 1, stderr := CommandFault.diagnosticLines report }
  | .compile => do l.emit (← compiled s source format circumstances.now).render files
  | .run =>
    let plan ← compiled s source format circumstances.now
    let runId := (l.option? .runId).getD circumstances.freshId
    let (outcome, x) ← (s.run files (circumstances.units config) plan ⟨runId, plan.id, []⟩
      none).mapError .pipeline
    return { ← l.emit (Json.pretty outcome.toValue) x.store.files with
      exit := exitOf outcome.status }

end CommandLine

/-- Answers the arguments of the program. -/
def respond (args : List String) (circumstances : CommandLine.Circumstances) (files : Entry) :
    Response :=
  match CommandLine.parse args with
  | .error .usage => { exit := 2, stderr := [s!"error: see '{programName} --help'"], files }
  | .error (.help c) => { stdout := helpText c, files }
  | .error .version => { stdout := s!"{programName} {programVersion}\n", files }
  | .ok l => match l.execute circumstances files with
    | .ok r => r
    | .error fault => { exit := 1, stderr := fault.lines, files }

end Flowline
