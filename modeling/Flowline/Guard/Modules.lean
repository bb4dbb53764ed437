import Flowline.Guard.Comments
import Flowline.Text.Scan

/-! The modules that a source loads, as far as its text shows them. -/
namespace Flowline.Guard

/-- A module loaded on a line of the source; lines are counted from one. -/
structure ModuleRef where
  name : String
  line : Nat
deriving DecidableEq, Inhabited

open Text

/-- The package that a dotted name belongs to. -/
def package? (name : List Char) : Option (List Char) :=
  let top := trimChars isBlank (name.takeWhile (· ≠ '.'))
  if top.isEmpty then none else some top

def isNameStart (c : Char) : Bool := c == '_' || 'a' ≤ c && c ≤ 'z' || 'A' ≤ c && c ≤ 'Z'

def isDotted (c : Char) : Bool := c == '.' || isWord c

/-- The packages of `import a, b.c as d`. -/
def imported? (statement : List Char) : Option (List (List Char)) := do
  let rest ← after? "import".toList (skipBlank statement)
  match rest with
  | c :: d :: rest =>
    if isBlank c then
      return (splitChars ',' (d :: rest)).filterMap fun part =>
        package? ((skipBlank part).takeWhile fun c => !isBlank c)
    else none
  | _ => none

/-- The package of `from a.b import c`. -/
def importedFrom? (statement : List Char) : Option (List Char) := do
  let rest ← skipSomeBlank? (← after? "from".toList (skipBlank statement))
  let (name, rest) ← some? isDotted rest
  if !name.head?.any isNameStart then none
  let rest ← after? "import".toList (← skipSomeBlank? rest)
  if wordEnds rest then package? name else none

/-- The packages of one statement. -/
def statementPackages (statement : List Char) : List (List Char) :=
  match imported? statement with
  | some packages => packages
  | none => (importedFrom? statement).toList

/-- A call of the import function on a literal name. -/
def importCall? (s : List Char) : Option (List Char × List Char) := do
  let rest ← oneOf? (· == '(') (skipBlank (← after? "__import__".toList s))
  let (name, rest) ← some? isDotted (← oneOf? isQuote (skipBlank rest))
  return (name, ← oneOf? isQuote rest)

def pythonPackages (line : List Char) : List (List Char) :=
  (splitChars ';' line).flatMap statementPackages
    ++ (searchAll (fun _ s => importCall? s) 0 none line).filterMap package?

/-- A module literal given to `require` or `import` as to a function. -/
def loadCall? (before : Option Char) (s : List Char) : Option (List Char × List Char) := do
  if before.any isWord then none
  let rest ← (after? "require".toList s).orElse fun _ => after? "import".toList s
  let rest ← oneOf? (· == '(') (skipBlank rest)
  let (name, rest) ← some? (fun c => !isScriptQuote c) (← oneOf? isScriptQuote (skipBlank rest))
  return (name, ← oneOf? (· == ')') (skipBlank (← oneOf? isScriptQuote rest)))

/-- The module literal of an import or export statement: the first literal after the word. -/
def loadStatement? (line : List Char) : Option (List Char) := do
  let line := skipBlank line
  let rest ← (after? "import".toList line).orElse fun _ => after? "export".toList line
  if !wordEnds rest then none
  let rest ← oneOf? isQuote (rest.dropWhile fun c => !isScriptQuote c)
  let (name, rest) ← some? (fun c => !isQuote c) rest
  if rest.isEmpty then none else some name

def promisesModule : List Char := "fs/promises".toList

/-- The module that a specifier names; files of the program itself are none. -/
def moduleOf? (specifier : List Char) : Option (List Char) :=
  let specifier := (after? "node:".toList specifier).getD specifier
  match specifier with
  | '.' :: _ | '/' :: _ => none
  | '@' :: path =>
    match splitChars '/' path with
    | scope :: package :: _ => some ('@' :: scope ++ '/' :: package)
    | _ => some specifier
  | _ =>
    if specifier = promisesModule then some specifier
    else some (specifier.takeWhile (· ≠ '/'))

def scriptModules (line : List Char) : List (List Char) :=
  (searchAll loadCall? 0 none line ++ (loadStatement? line).toList).filterMap moduleOf?

def lineModules : Language → List Char → List (List Char)
  | .python => pythonPackages
  | .javaScript => scriptModules

/-- The modules of a source in the order in which they stand there. -/
def moduleRefs (language : Language) (source : List Char) : List ModuleRef :=
  (lineChars source).zipIdx.flatMap fun (line, i) =>
    (lineModules language line).map fun name => ⟨String.ofList name, i + 1⟩

end Flowline.Guard
