import Flowline.Toml.Table
import Flowline.Toml.Scalar

/-! Reading a TOML document line by line into its tables. -/
namespace Flowline.Toml

def skipSpaces (s : List Char) : List Char := s.dropWhile isSpace

/-- Lists and inline tables may nest this deep. -/
def depthLimit : Nat := 80

def isBareKey (c : Char) : Bool := c.isAlphanum || c = '_' || c = '-'

def startsKey : List Char → Bool
  | c :: _ => isBareKey c || c = '"' || c = '\''
  | [] => false

def simpleKey : Reader String := fun s =>
  match s with
  | '"' :: r => basicBody (r.length + 1) [] r
  | '\'' :: r => literalBody r
  | _ =>
    let word := s.takeWhile isBareKey
    if word.isEmpty then .error s else .ok (String.ofList word, s.drop word.length)

/-- The end of a list that is not empty. -/
def splitLast (k : String) : List String → List String × String
  | [] => ([], k)
  | l :: ks =>
    let (path, key) := splitLast l ks
    (k :: path, key)

/-- The parts of a key after its first one, each behind a dot, and the blanks after them. -/
def keyParts : Nat → Reader (List String)
  | 0, s => .error s
  | fuel + 1, s =>
    match skipSpaces s with
    | '.' :: r =>
      if startsKey (skipSpaces r) then do
        let (k, r) ← simpleKey (skipSpaces r)
        let (ks, r) ← keyParts fuel r
        return (k :: ks, r)
      else .ok ([], '.' :: r)
    | r => .ok ([], r)

/-- A key: its path and its last part. -/
def key : Reader (List String × String) := fun s => do
  let (k, r) ← simpleKey s
  let (ks, r) ← keyParts (r.length + 1) r
  return (splitLast k ks, r)

/-- Goes past a comment, if one starts here. -/
def skipComment : List Char → List Char
  | '#' :: r => r.dropWhile isPrintable
  | r => r

/-- Nothing but a comment before the end of the line. -/
def lineEnd (s : List Char) : Except (List Char) (List Char) :=
  match skipComment (skipSpaces s) with
  | [] => .ok []
  | r => match newLine? r with
    | some r => .ok r
    | none => .error r

/-- Blanks, comments and line ends inside a list. -/
def skipLines : Nat → List Char → List Char
  | 0, s => s
  | fuel + 1, s =>
    let r := skipComment (skipSpaces s)
    match newLine? r with
    | some r => skipLines fuel r
    | none => r

/-- A key and its value. -/
structure Assignment where
  path : List String
  key : String
  value : Datum

/-- `key = value`, the value read by `one`. -/
def assignment (one : Reader Datum) : Reader Assignment := fun s => do
  let ((path, key), s) ← key s
  let s ← mark (· = '=') s
  let (d, s) ← one (skipSpaces s)
  return (⟨path, key, d⟩, s)

def listItems (one : Reader Datum) : Nat → List Datum → Reader Datum
  | 0, _, s => .error s
  | fuel + 1, acc, s =>
    match skipLines s.length s with
    | ']' :: r => .ok (.list acc.reverse, r)
    | s => do
      let (d, r) ← one s
      match skipLines r.length r with
      | ',' :: r => listItems one fuel (d :: acc) r
      | ']' :: r => return (.list (d :: acc).reverse, r)
      | r => throw r

/-- The assignments of an inline table up to its closing brace; none may be missing after a comma. -/
def assignments (one : Reader Datum) : Nat → Reader (List Assignment)
  | 0, s => .error s
  | fuel + 1, s => do
    let (a, r) ← assignment one s
    match skipSpaces r with
    | ',' :: r =>
      if startsKey (skipSpaces r) then
        let (more, r) ← assignments one fuel (skipSpaces r)
        return (a :: more, r)
      else throw (',' :: r)
    | '}' :: r => return ([a], r)
    | r => throw r

/-- An inline table after its opening brace. -/
def inlineTable (one : Reader Datum) : Reader Datum := fun s =>
  match skipSpaces s with
  | '}' :: r => .ok (.table [], r)
  | t => do
    let (more, r) ← assignments one (t.length + 1) t
    match more.foldlM (fun es a => Entries.assign es [] a.path a.key a.value) [] with
    | some es => return (.table (entryData es), r)
    | none => throw s

/-- A value; lists and inline tables use up the depth. -/
def value : Nat → Reader Datum
  | depth, s => do
    let (d, r) ← match depth, s with
      | depth + 1, '[' :: r => listItems (value depth) (r.length + 1) [] r
      | depth + 1, '{' :: r => inlineTable (value depth) r
      | _, s => scalar s
    return (.placed s.length d, r)

/-- The document so far and the table that is open. -/
structure Progress where
  root : Entries
  header : List String

/-- A header of a table between brackets; `open?` opens it. -/
def header (brackets : Nat) (open? : List String → String → Option Entries) : Reader Progress :=
  fun s => do
    let ((path, key), r) ← key (skipSpaces (s.drop brackets))
    let r ← word (String.ofList (List.replicate brackets ']')) r
    let r ← lineEnd r
    match open? path key with
    | some root => return (⟨root, path ++ [key]⟩, r)
    | none => throw s

/-- One line. -/
def step (p : Progress) : Reader Progress := fun s =>
  match s with
  | '[' :: '[' :: _ => header 2 p.root.openElement s
  | '[' :: _ => header 1 (p.root.openTable s.length) s
  | '#' :: _ | '\n' :: _ | '\r' :: _ => do return (p, ← lineEnd s)
  | _ => do
    let (a, r) ← assignment (value depthLimit) s
    let r ← lineEnd r
    match p.root.assign p.header a.path a.key a.value with
    | some root => return (⟨root, p.header⟩, r)
    | none => throw s

def steps : Nat → Progress → List Char → Except (List Char) Entries
  | 0, _, s => .error s
  | fuel + 1, p, s =>
    match skipSpaces s with
    | [] => .ok p.root
    | s => do
      let (p, r) ← step p s
      steps fuel p r

/-- The table that a text describes, or the place where it is none. -/
def read (source : String) : Except Place Datum :=
  let s := match source.toList with
    | c :: r => if c.toNat = 0xFEFF then r else c :: r
    | [] => []
  match steps (s.length + 1) ⟨[], []⟩ s with
  | .ok es => .ok (.table (entryData es))
  | .error rest => .error (.ofLeft source.toList rest.length)

end Flowline.Toml
