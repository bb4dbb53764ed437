import Flowline.Sandbox.Language
import Flowline.Text.Blank

/-! Source text without its comments. String literals and the numbering of lines are kept. -/
namespace Flowline.Guard

def isQuote (c : Char) : Bool := c == '\'' || c == '"'

def isScriptQuote (c : Char) : Bool := isQuote c || c == '\x60'

/-- An open string literal of a Python source: its quote, and whether it is tripled. -/
structure OpenString where
  quote : Char
  tripled : Bool
deriving DecidableEq, Inhabited

/-- The literal that a quote opens before `rest`. -/
def OpenString.at (quote : Char) (rest : List Char) : OpenString :=
  ⟨quote, [quote, quote].isPrefixOf rest⟩

/-- The part of a Python line before its comment, and the string that is open at its end. Characters
still to be taken into a quote or an escape come first. -/
def pythonCode (skip : Nat) (inside : Option OpenString) :
    List Char → List Char × Option OpenString
  | [] => ([], inside)
  | c :: rest =>
    let go (skip : Nat) (inside : Option OpenString) :=
      let (code, final) := pythonCode skip inside rest
      (c :: code, final)
    match skip, inside with
    | k + 1, _ => go k inside
    | 0, some s =>
      if c = '\\' then go 1 inside
      else if c ≠ s.quote then go 0 inside
      else if !s.tripled then go 0 none
      else if [c, c].isPrefixOf rest then go 2 none
      else go 0 inside
    | 0, none =>
      if c = '#' then ([], none)
      else if isQuote c then
        let s := OpenString.at c rest
        go (if s.tripled then 2 else 0) (some s)
      else go 0 none

/-- Only a tripled string goes on in the next line. -/
def pythonLine (inside : Option OpenString) (line : List Char) :
    List Char × Option OpenString :=
  let (code, final) := pythonCode 0 inside line
  (code, final.filter (·.tripled))

/-- A JavaScript line without its comments, and whether a block comment is open at its end. No
string literal goes on in the next line. -/
def scriptCode (block : Bool) (quote : Option Char) : List Char → List Char × Bool
  | [] => ([], block)
  | c :: rest =>
    if block then
      match c, rest with
      | '*', '/' :: more => scriptCode false none more
      | _, more => scriptCode true none more
    else
      let keep (quote : Option Char) :=
        let (code, final) := scriptCode false quote rest
        (c :: code, final)
      match quote with
      | some q =>
        if c = '\\' then
          match rest with
          | [] => ([c], false)
          | d :: rest =>
            let (code, final) := scriptCode false quote rest
            (c :: d :: code, final)
        else keep (if c = q then none else quote)
      | none =>
        match c, rest with
        | '/', '/' :: _ => ([], false)
        | '/', '*' :: rest => scriptCode true none rest
        | _, _ => keep (if isScriptQuote c then some c else none)
termination_by s => s.length

/-- The lines of a source without comments, state carried from line to line. -/
def codeLines (step : σ → List Char → List Char × σ) (state : σ) : List (List Char) →
    List (List Char)
  | [] => []
  | line :: rest =>
    let (code, state) := step state line
    code :: codeLines step state rest

/-- The source without comments; every line ends in a line feed. -/
def withoutComments (language : Language) (source : List Char) : List Char :=
  let lines := Text.lineChars source
  let code := match language with
    | .python => codeLines pythonLine none lines
    | .javaScript => codeLines (fun block line => scriptCode block none line) false lines
  code.flatMap fun line => line ++ ['\n']

end Flowline.Guard
