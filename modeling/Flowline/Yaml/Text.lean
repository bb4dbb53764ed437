import Flowline.Json.Reader

/-! The texts of a YAML document: positions, gaps between tokens, unquoted, quoted and block
scalars. Line ends are single `\n` characters here. -/
namespace Flowline.Yaml

/-- What is left to read, and the column it starts in. -/
structure Cursor where
  rest : List Char
  col : Nat

def Cursor.skip (c : Cursor) (n : Nat) : Cursor := ⟨c.rest.drop n, c.col + n⟩

def isSpace (c : Char) : Bool := c = ' ' || c = '\t'

/-- The rest starts with a blank, a line end, or is empty. -/
def blankNext : List Char → Bool
  | [] => true
  | c :: _ => isSpace c || c = '\n'

def isFlowMark (c : Char) : Bool := c = ',' || c = '[' || c = ']' || c = '{' || c = '}'

/-- A document marker in the first column. -/
def Cursor.atMarker (c : Cursor) : Bool :=
  c.col == 0 && match c.rest with
  | '-' :: '-' :: '-' :: r => blankNext r
  | '.' :: '.' :: '.' :: r => blankNext r
  | _ => false

def Cursor.atEnd (c : Cursor) : Bool := c.rest.isEmpty || c.atMarker

/-- An indicator that a blank must follow. -/
def Cursor.atMark (c : Cursor) (mark : Char) : Bool :=
  match c.rest with
  | m :: r => m == mark && blankNext r
  | [] => false

/-- The place after blanks, comments and line ends. -/
structure Gap where
  cur : Cursor
  /-- The place is the first on its line. -/
  fresh : Bool
  /-- A tab stands in the indentation of that line. -/
  tabbed : Bool

def gapFrom (inComment spaced fresh tabbed : Bool) (col : Nat) : List Char → Gap
  | [] => ⟨⟨[], col⟩, fresh, tabbed⟩
  | c :: r =>
    if c = '\n' then gapFrom false true true false 0 r
    else if inComment then gapFrom true true fresh tabbed (col + 1) r
    else if c = ' ' then gapFrom false true fresh tabbed (col + 1) r
    else if c = '\t' then gapFrom false true fresh fresh (col + 1) r
    else if c = '#' && spaced then gapFrom true true fresh tabbed (col + 1) r
    else ⟨⟨c :: r, col⟩, fresh, tabbed⟩

def Cursor.gap (c : Cursor) : Gap := gapFrom false (c.col == 0) (c.col == 0) false c.col c.rest

/-- Line ends inside a text: one becomes a blank, of more the first is dropped; after an escaped
line end all count. -/
def foldBreaks (escaped : Bool) (n : Nat) : List Char :=
  if escaped then List.replicate n '\n'
  else if n = 1 then [' '] else List.replicate (n - 1) '\n'

/-! ### Unquoted -/

/-- The part of an unquoted text on one line, reversed, and where it ends: before `: `, ` #`, a
line end, or a flow mark inside a flow collection. Blanks at the end are not part of it. -/
def plainRun (flow : Bool) (text : List Char) (stop : Cursor) (pending : List Char) (col : Nat) :
    List Char → List Char × Cursor
  | [] => (text, stop)
  | c :: r =>
    if c = '\n' || (flow && isFlowMark c) then (text, stop)
    else if c = '#' && !pending.isEmpty then (text, stop)
    else if c = ':' && (blankNext r || (flow && (r.head?.map isFlowMark).getD false)) then
      (text, stop)
    else if isSpace c then plainRun flow text stop (c :: pending) (col + 1) r
    else plainRun flow (c :: (pending ++ text)) ⟨r, col + 1⟩ [] (col + 1) r

/-- Line ends from here to the next text, blank lines included, and the place of that text. -/
def lineBreaks (n col : Nat) : List Char → Nat × Cursor
  | [] => (n, ⟨[], col⟩)
  | c :: r =>
    if c = '\n' then lineBreaks (n + 1) 0 r
    else if isSpace c then lineBreaks n (col + 1) r
    else (n, ⟨c :: r, col⟩)

/-- An unquoted text over as many lines as are indented to `minCol`. -/
def plainLines (flow : Bool) (minCol : Nat) : Nat → List Char → Cursor → List Char × Cursor
  | 0, text, stop => (text, stop)
  | fuel + 1, text, stop =>
    let (n, cur) := lineBreaks 0 stop.col stop.rest
    let deep := if flow then minCol ≤ cur.col + 1 else minCol ≤ cur.col
    if n = 0 || cur.atEnd || !deep || cur.rest.head? = some '#' then (text, stop)
    else
      let (run, next) := plainRun flow [] cur [] cur.col cur.rest
      if run.isEmpty then (text, stop)
      else plainLines flow minCol fuel (run ++ (foldBreaks false n).reverse ++ text) next

/-- Whether an unquoted text can start here. -/
def plainStart (flow : Bool) : List Char → Bool
  | [] => false
  | c :: r =>
    if c = '-' || c = '?' || c = ':' then
      !blankNext r && !(flow && (r.head?.map isFlowMark).getD false)
    else !isFlowMark c && !(['#', '&', '*', '!', '|', '>', '\'', '"', '%', '@', Char.ofNat 0x60].contains c)

/-- An unquoted text, whether it lies on one line, and what follows. -/
def plain? (flow : Bool) (minCol : Nat) (cur : Cursor) : Option (String × Bool × Cursor) :=
  if plainStart flow cur.rest then
    let (run, stop) := plainRun flow [] cur [] cur.col cur.rest
    let (text, stop') := plainLines flow minCol stop.rest.length run stop
    some (String.ofList text.reverse, stop'.rest.length == stop.rest.length, stop')
  else none

/-! ### Quoted -/

/-- State inside a quoted text: what is read (reversed), blanks that may still be dropped, and the
line ends since the last character. -/
structure Quoted where
  text : List Char
  pending : List Char
  breaks : Option (Bool × Nat)

def Quoted.flush (q : Quoted) : List Char :=
  match q.breaks with
  | some (escaped, n) => (foldBreaks escaped n).reverse ++ q.text
  | none => q.pending ++ q.text

def Quoted.push (q : Quoted) (c : Char) : Quoted := ⟨c :: q.flush, [], none⟩

def Quoted.blank (q : Quoted) (c : Char) : Quoted :=
  if q.breaks.isSome then q else { q with pending := c :: q.pending }

def Quoted.newLine (q : Quoted) : Quoted :=
  match q.breaks with
  | some (escaped, n) => { q with breaks := some (escaped, n + 1) }
  | none => ⟨q.text, [], some (false, 1)⟩

def Quoted.joinLine (q : Quoted) : Quoted := ⟨q.flush, [], some (true, 0)⟩

/-- The first character of a further line is indented and no document marker. -/
def lineOk (minCol : Nat) (q : Quoted) (col : Nat) (s : List Char) : Bool :=
  q.breaks.isNone || (minCol ≤ col + 1 && !(Cursor.mk s col).atMarker)

/-- The rest of a text in single quotes; a quote inside is written twice. -/
def singleBody (minCol : Nat) (q : Quoted) (one : Bool) (col : Nat) :
    List Char → Option (String × Bool × Cursor)
  | [] => none
  | '\n' :: r => singleBody minCol q.newLine false 0 r
  | ' ' :: r => singleBody minCol (q.blank ' ') one (col + 1) r
  | '\t' :: r => singleBody minCol (q.blank '\t') one (col + 1) r
  | '\'' :: '\'' :: r =>
    if lineOk minCol q col ['\''] then singleBody minCol (q.push '\'') one (col + 2) r else none
  | '\'' :: r =>
    if lineOk minCol q col ['\''] then some (String.ofList q.flush.reverse, one, ⟨r, col + 1⟩)
    else none
  | c :: r =>
    if lineOk minCol q col (c :: r) then singleBody minCol (q.push c) one (col + 1) r else none

/-- What a one-letter escape stands for. -/
def escape? : Char → Option Char
  | '0' => some (Char.ofNat 0)
  | 'a' => some (Char.ofNat 7)
  | 'b' => some (Char.ofNat 8)
  | 't' | '\t' => some '\t'
  | 'n' => some '\n'
  | 'v' => some (Char.ofNat 11)
  | 'f' => some (Char.ofNat 12)
  | 'r' => some '\r'
  | 'e' => some (Char.ofNat 27)
  | ' ' => some ' '
  | '"' => some '"'
  | '/' => some '/'
  | '\\' => some '\\'
  | 'N' => some (Char.ofNat 0x85)
  | '_' => some (Char.ofNat 0xA0)
  | 'L' => some (Char.ofNat 0x2028)
  | 'P' => some (Char.ofNat 0x2029)
  | _ => none

/-- The number of hexadecimal digits after an escape letter. -/
def escapeWidth : Char → Nat
  | 'x' => 2
  | 'u' => 4
  | 'U' => 8
  | _ => 0

/-- The character with the code point that the hexadecimal digits name. -/
def codePoint? (ds : List Char) : Option Char := do
  let n ← ds.foldlM (fun n c => (Json.hexValue? c).map (16 * n + ·)) 0
  if n.isValidChar then some (Char.ofNat n) else none

/-- The rest of a text in double quotes. -/
def doubleBody (minCol : Nat) : Nat → Quoted → Bool → Cursor → Option (String × Bool × Cursor)
  | 0, _, _, _ => none
  | fuel + 1, q, one, cur =>
    match cur.rest with
    | [] => none
    | '\n' :: r => doubleBody minCol fuel q.newLine false ⟨r, 0⟩
    | '"' :: r =>
      if lineOk minCol q cur.col ['"'] then
        some (String.ofList q.flush.reverse, one, ⟨r, cur.col + 1⟩)
      else none
    | '\\' :: '\n' :: r => doubleBody minCol fuel q.joinLine false ⟨r, 0⟩
    | '\\' :: c :: r =>
      if !lineOk minCol q cur.col ['\\'] then none
      else
        let n := escapeWidth c
        if n = 0 then
          match escape? c with
          | some ch => doubleBody minCol fuel (q.push ch) one ⟨r, cur.col + 2⟩
          | none => none
        else if r.length < n then none
        else match codePoint? (r.take n) with
          | some ch => doubleBody minCol fuel (q.push ch) one ⟨r.drop n, cur.col + 2 + n⟩
          | none => none
    | c :: r =>
      if isSpace c then doubleBody minCol fuel (q.blank c) one ⟨r, cur.col + 1⟩
      else if lineOk minCol q cur.col (c :: r) then
        doubleBody minCol fuel (q.push c) one ⟨r, cur.col + 1⟩
      else none

/-- A quoted text, whether it lies on one line, and what follows. -/
def quoted? (minCol : Nat) (cur : Cursor) : Option (String × Bool × Cursor) :=
  match cur.rest with
  | '\'' :: r => singleBody minCol ⟨[], [], none⟩ true (cur.col + 1) r
  | '"' :: r => doubleBody minCol (r.length + 1) ⟨[], [], none⟩ true ⟨r, cur.col + 1⟩
  | _ => none

/-! ### Block scalars -/

inductive Chomp where
  | strip
  | clip
  | keep

structure BlockHeader where
  folded : Bool
  chomp : Chomp
  /-- Indentation beyond that of the surrounding block, if given. -/
  indent : Option Nat

/-- The marks after `|` or `>`: chomping and indentation, in either order. -/
def blockHeader? (h : BlockHeader) : List Char → Option (BlockHeader × List Char)
  | '-' :: r => blockHeader? { h with chomp := .strip } r
  | '+' :: r => blockHeader? { h with chomp := .keep } r
  | c :: r =>
    if '1' ≤ c ∧ c ≤ '9' then
      if h.indent.isSome then none
      else blockHeader? { h with indent := some (c.toNat - 48) } r
    else
      -- only a comment may follow on the line
      let g := gapFrom false false false false 1 (c :: r)
      if g.fresh || g.cur.rest.isEmpty then
        some (h, ((c :: r).dropWhile (· != '\n')).drop 1)
      else none
  | [] => some (h, [])

/-- The first line and what follows its end. -/
def cutLine (s : List Char) : List Char × List Char :=
  (s.takeWhile (· != '\n'), (s.dropWhile (· != '\n')).drop 1)

/-- Leading spaces of a line, if it holds anything else. -/
def indentOf? (line : List Char) : Option Nat :=
  let n := (line.takeWhile (· = ' ')).length
  if n = line.length then none else some n

/-- The lines of a block scalar with their indentation cut off, and the rest. -/
def blockLines (indent : Nat) : Nat → List Char → List (List Char) × List Char
  | 0, s => ([], s)
  | fuel + 1, s =>
    if s.isEmpty then ([], [])
    else
      let (line, rest) := cutLine s
      if (indentOf? line).all (indent ≤ ·) then
        let (more, rest) := blockLines indent fuel rest
        (line.drop indent :: more, rest)
      else ([], s)

/-- The indentation of the first line that is not blank. -/
def firstIndent : Nat → List Char → Nat
  | 0, _ => 0
  | fuel + 1, s =>
    if s.isEmpty then 0
    else match indentOf? (cutLine s).1 with
      | some n => n
      | none => firstIndent fuel (cutLine s).2

/-- Lines joined by folding: an end of line between two lines of plain text becomes a blank. -/
def foldLines : Option (List Char) → Nat → List (List Char) → List Char
  | _, _, [] => []
  | last, empties, line :: rest =>
    if line.isEmpty then foldLines last (empties + 1) rest
    else
      let indented := fun (l : List Char) => (l.head?.map isSpace).getD false
      let gap := match last with
        | none => List.replicate empties '\n'
        | some l =>
          if indented l || indented line then List.replicate (empties + 1) '\n'
          else foldBreaks false (empties + 1)
      gap ++ line ++ foldLines (some line) 0 rest

def joinLines (lines : List (List Char)) : List Char := List.intercalate ['\n'] lines

/-- The text of a block scalar. -/
def blockText (h : BlockHeader) (lines : List (List Char)) : List Char :=
  let empties := (lines.reverse.takeWhile List.isEmpty).length
  let content := lines.take (lines.length - empties)
  let body := if h.folded then foldLines none 0 content else joinLines content
  match h.chomp with
  | .strip => body
  | .clip => if content.isEmpty then [] else body ++ ['\n']
  | .keep => body ++ List.replicate (if content.isEmpty then empties else empties + 1) '\n'

/-- A block scalar at its mark, inside a block whose content starts at `minCol`. -/
def block? (minCol : Nat) (cur : Cursor) : Option (String × Cursor) := do
  let folded ← match cur.rest with
    | '|' :: _ => some false
    | '>' :: _ => some true
    | _ => none
  let (h, body) ← blockHeader? ⟨folded, .clip, none⟩ (cur.rest.drop 1)
  let indent := match h.indent with
    | some n => minCol - 1 + n
    | none => max (firstIndent (body.length + 1) body) minCol
  let (lines, rest) := blockLines indent (body.length + 1) body
  return (String.ofList (blockText h lines), ⟨rest, 0⟩)

end Flowline.Yaml
