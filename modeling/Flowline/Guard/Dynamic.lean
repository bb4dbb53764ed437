import Flowline.Guard.Modules

/-! Constructs that evaluate code made while the program runs. -/
namespace Flowline.Guard

open Text

/-- The name is called here. -/
def calls (name : String) (s : List Char) : Bool :=
  ((after? name.toList s).map skipBlank).any fun rest => rest.head? = some '('

def evaluators : List String := ["eval", "exec", "compile"]

/-- A call of an evaluator that is not a method. -/
def evaluatorAt? (before : Option Char) (s : List Char) : Option String :=
  if before.any isDotted then none else evaluators.find? fun name => calls name s

def importFunction : String := "__import__"

/-- The import function, called with something that does not begin like a literal. -/
def computedImportAt? (_ : Option Char) (s : List Char) : Option String := do
  let rest ← oneOf? (· == '(') (skipBlank (← after? importFunction.toList s))
  let c ← (skipBlank rest).head?
  if isQuote c || c == ')' then none else some importFunction

/-- Names that lead from any object to the builtins and the loaded modules. -/
def introspective : List String := ["__builtins__", "__subclasses__", "__globals__", "__loader__"]

def introspectionAt? (_ : Option Char) (s : List Char) : Option String :=
  introspective.find? fun name => (after? name.toList s).isSome

/-- A timer called with the beginning of a literal. -/
def timed (name : String) (s : List Char) : Bool := Option.isSome do
  let rest ← oneOf? (· == '(') (skipBlank (← after? name.toList s))
  oneOf? (fun c => c == '\'' || c == '\x60') (skipBlank rest)

def nativeMembers : List String := ["binding", "_linkedBinding", "dlopen"]

/-- A member of `process` that loads native code; named up to the first white space. -/
def nativeAt? (s : List Char) : Option String := do
  let rest ← after? "process".toList s
  let member ← oneOf? (· == '.') (skipBlank rest)
  let name ← nativeMembers.find? fun name =>
    (after? name.toList (skipBlank member)).any wordEnds
  if rest.head?.any isBlank then some "process"
  else if member.head?.any isBlank then some "process."
  else some ("process." ++ name)

def newFunction (s : List Char) : Bool := Option.isSome do
  let rest ← after? "Function".toList (← skipSomeBlank? (← after? "new".toList s))
  if wordEnds rest then some () else none

def isScriptWord (c : Char) : Bool := c == '$' || isWord c

def scriptEvaluatorAt? (before : Option Char) (s : List Char) : Option String :=
  if before.any fun c => c == '.' || isScriptWord c then none
  else if calls "eval" s then some "eval"
  else if newFunction s then some "new Function"
  else if calls "Function" s then some "Function"
  else if timed "setTimeout" s then some "setTimeout"
  else if timed "setInterval" s then some "setInterval"
  else nativeAt? s

/-- A string literal and the end of the call around it. -/
def literalArgument (s : List Char) : Bool := Option.isSome do
  let s := skipBlank s
  let quote ← s.head?
  let stop (c : Char) : Bool := c == quote || c == '\\'
    || (if quote == '\x60' then c == '$' else c == '\n')
  if !isScriptQuote quote then none
  let rest ← oneOf? (· == quote) ((s.drop 1).dropWhile fun c => !stop c)
  oneOf? (· == ')') (skipBlank rest)

/-- A load on this line whose argument is not a single literal. The argument may go on in later
lines: `source` is the text from the beginning of the line on. -/
def computedLoad? (length : Nat) (source : List Char) : Option String :=
  search (fun before s => do
    if before.any isScriptWord then none
    let name ← ["require", "import"].find? fun name => calls name s
    let rest ← after? name.toList s
    let opened := (skipBlank rest).drop 1
    let after := opened ++ dropBytes length source
    if literalArgument after then none else some (name ++ "()"))
    none (takeBytes length source)

/-- The first construct on a line; each pattern is tried on the whole line before the next. -/
def lineConstruct? (language : Language) (line source : List Char) : Option String :=
  match language with
  | .python =>
    [evaluatorAt?, computedImportAt?, introspectionAt?].findSome? fun test => search test none line
  | .javaScript =>
    (search scriptEvaluatorAt? none line).orElse fun _ => computedLoad? (byteLength line) source

/-- The first construct of the lines and its line. Each line is taken to begin one byte after the
end of the line before. -/
def construct? (language : Language) (number : Nat) (source : List Char) :
    List (List Char) → Option (String × Nat)
  | [] => none
  | line :: rest =>
    match lineConstruct? language line source with
    | some construct => some (construct, number)
    | none => construct? language (number + 1) (dropBytes (byteLength line + 1) source) rest

/-- The first construct of a source and its line. -/
def dynamicCode? (language : Language) (source : List Char) : Option (String × Nat) :=
  construct? language 1 source (lineChars source)

end Flowline.Guard
