import Flowline.Validation.Basic

/-! The command line: a command with its pipeline file, and options that stand before or behind
the command. -/
namespace Flowline

inductive Command where
  | validate
  | compile
  | run
deriving DecidableEq, Inhabited

namespace Command

def all : List Command := [validate, compile, run]

def name : Command → String
  | validate => "validate"
  | compile => "compile"
  | run => "run"

def about : Command → String
  | validate => "Report every diagnostic for a pipeline"
  | compile => "Compile a pipeline to its JSON IR"
  | run => "Compile and execute a pipeline"

def ofName? (s : String) : Option Command := all.find? (·.name == s)

end Command

/-- The formats that the command line names. -/
def formatNames : List (String × Format) := [("yaml", .yaml), ("json", .json), ("toml", .toml)]

inductive OptionName where
  | config
  | format
  | output
  | runId
deriving DecidableEq

namespace OptionName

/-- Long options; the run id belongs to one command. -/
def ofLong? (command : Option Command) : String → Option OptionName
  | "config" => some config
  | "format" => some format
  | "output" => some output
  | "run-id" => if command = some .run then some runId else none
  | _ => none

def ofShort? : Char → Option OptionName
  | 'c' => some config
  | 'f' => some format
  | 'o' => some output
  | _ => none

/-- Values that an option takes. -/
def accepts (o : OptionName) (value : String) : Bool :=
  match o with
  | config | output => !value.isEmpty
  | format => formatNames.any (·.1 == value)
  | runId => true

end OptionName

structure CommandLine where
  command : Command
  file : String
  options : List (OptionName × String) := []

namespace CommandLine

/-- What the arguments ask for instead of a command. -/
inductive Refusal where
  | usage
  | help (command : Option Command)
  | version
deriving DecidableEq

/-- The options behind the command come first. -/
def option? (l : CommandLine) (o : OptionName) : Option String := l.options.lookup o

/-- Arguments as far as they are read. -/
structure Reading where
  command : Option Command := none
  file : Option String := none
  /-- Options before the command, once that is read. -/
  outer : List (OptionName × String) := []
  options : List (OptionName × String) := []
  /-- The option that waits for its value. -/
  waiting : Option OptionName := none
  /-- No further options are read. -/
  isPlain : Bool := false
  /-- The command whose help is asked for, once that word is read. -/
  helping : Option (Option Command) := none

namespace Reading

/-- An option stands at most once on each side of the command. -/
def set (r : Reading) (o : OptionName) (value : String) : Except Refusal Reading :=
  if !o.accepts value || r.options.any (·.1 == o) then .error .usage
  else .ok { r with waiting := none, options := (o, value) :: r.options }

def positional (r : Reading) (arg : String) : Except Refusal Reading :=
  match r.command, r.file with
  | none, _ =>
    if r.isPlain then .error .usage
    else if arg == "help" then .ok { r with helping := some none }
    else match Command.ofName? arg with
      | some c => .ok { r with command := some c, outer := r.options, options := [] }
      | none => .error .usage
  | some _, none => if arg.isEmpty then .error .usage else .ok { r with file := some arg }
  | some _, some _ => .error .usage

def long (r : Reading) (name : String) (value : Option String) : Except Refusal Reading :=
  match OptionName.ofLong? r.command name, value with
  | some o, some value => r.set o value
  | some o, none => .ok { r with waiting := some o }
  | none, some _ => .error .usage
  | none, none =>
    if name == "help" then .error (.help r.command)
    else if name == "version" && r.command.isNone then .error .version
    else .error .usage

/-- A letter, with its value behind it or behind an equals sign. -/
def short (r : Reading) (letter : Char) (value : List Char) : Except Refusal Reading :=
  match OptionName.ofShort? letter, value with
  | some o, [] => .ok { r with waiting := some o }
  | some o, '=' :: value => r.set o (String.ofList value)
  | some o, value => r.set o (String.ofList value)
  | none, _ =>
    if letter == 'h' then .error (.help r.command)
    else if letter == 'V' && r.command.isNone then .error .version
    else .error .usage

/-- Two dashes end the options; a single dash is a word like others. -/
def argument (r : Reading) (arg : String) : Except Refusal Reading :=
  if r.isPlain then r.positional arg
  else match arg.toList with
    | ['-', '-'] => .ok { r with isPlain := true }
    | '-' :: '-' :: name => match Text.cut? ['='] name with
      | some (name, value) => r.long (String.ofList name) (some (String.ofList value))
      | none => r.long (String.ofList name) none
    | '-' :: letter :: value => r.short letter value
    | _ => r.positional arg

def isFlag (arg : String) : Bool :=
  match arg.toList with
  | '-' :: _ :: _ => true
  | _ => false

def step (r : Reading) (arg : String) : Except Refusal Reading :=
  match r.helping, r.waiting with
  | some none, _ => match Command.ofName? arg with
    | some c => .ok { r with helping := some (some c) }
    | none => .error .usage
  | some (some _), _ => .error .usage
  | none, some o => if isFlag arg then .error .usage else r.set o arg
  | none, none => r.argument arg

def finish (r : Reading) : Except Refusal CommandLine :=
  match r.helping, r.waiting, r.command, r.file with
  | some c, _, _, _ => .error (.help c)
  | none, none, some command, some file => .ok { command, file, options := r.options ++ r.outer }
  | _, _, _, _ => .error .usage

end Reading

def parse (args : List String) : Except Refusal CommandLine := do
  (← args.foldlM Reading.step {}).finish

end CommandLine

/-! ### Help -/

def programName : String := "xpipeline"
def programVersion : String := "0.1.0"

/-- Two columns, the second one aligned. -/
def helpTable (rows : List (String × String)) : List String :=
  let width := (rows.map (·.1.length)).foldl max 0
  rows.map fun (left, right) =>
    "  " ++ left ++ String.ofList (List.replicate (width - left.length + 2) ' ') ++ right

def optionHelp (command : Option Command) : List (String × String) :=
  (if command = some .run then
    [("    --run-id <RUN_ID>", "Explicit run id (a UUID is generated otherwise)")] else [])
  ++ [("-c, --config <CONFIG>", "TOML config file [env: XPIPELINE_CONFIG=]"),
    ("-f, --format <FORMAT>", "Source format; inferred from the file extension when omitted "
      ++ "[possible values: yaml, json, toml]"),
    ("-o, --output <OUTPUT>", "Write the JSON result here instead of stdout"),
    ("-h, --help", "Print help")]
  ++ if command.isNone then [("-V, --version", "Print version")] else []

def helpText (command : Option Command) : String :=
  let options := "" :: "Options:" :: helpTable (optionHelp command)
  let lines := match command with
    | none => ["Compile and run declarative pipelines", "",
        s!"Usage: {programName} [OPTIONS] <COMMAND>", "", "Commands:"]
      ++ helpTable (Command.all.map (fun c => (c.name, c.about))
        ++ [("help", "Print this message or the help of the given subcommand(s)")])
      ++ options
    | some c => [c.about, "", s!"Usage: {programName} {c.name} [OPTIONS] <FILE>", "",
        "Arguments:", "  <FILE>  "] ++ options
  "\n".intercalate lines ++ "\n"

end Flowline
