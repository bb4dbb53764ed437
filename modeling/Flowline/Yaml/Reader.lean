import Flowline.Yaml.Node
import Flowline.Yaml.Text

/-! Reading one YAML document by recursive descent over columns. `minCol` is the least column that
content of the enclosing block may have. Every round reads at least one character or goes one
level down, so a multiple of the length of the text bounds the recursion. -/
namespace Flowline.Yaml

/-- The place in the text and the anchors seen; one whose node is still open has no node. -/
structure State where
  cur : Cursor
  anchors : List (String × Option Node)

abbrev Read := StateT State Option

def goTo (cur : Cursor) : Read Unit := modify fun s => { s with cur }
def here : Read Cursor := do return (← get).cur
def skip (n : Nat) : Read Unit := do goTo ((← here).skip n)
def lift (x : Option α) : Read α := fun s => x.map (·, s)

def peek : Read Gap := do return (← here).gap

/-- Goes over a gap and tells what it was. -/
def toNext : Read Gap := do
  let g ← peek
  goTo g.cur
  return g

/-- Anchor and tag of a node. -/
structure Properties where
  anchor : Option String
  /-- The tag makes any scalar a text. -/
  isText : Bool
  given : Bool

def Properties.bare : Properties := ⟨none, false, false⟩

def isNameChar (c : Char) : Bool := !isSpace c && c != '\n' && !isFlowMark c

def name : Read String := do
  let cur ← here
  let word := cur.rest.takeWhile isNameChar
  if word.isEmpty then failure
  goTo (cur.skip word.length)
  return String.ofList word

def textTags : List String := ["!", "!!str", "!<tag:yaml.org,2002:str>"]

/-- A tag; one in angle brackets may hold flow marks. -/
def tagWord (s : List Char) : List Char :=
  if "!<".toList.isPrefixOf s then s.takeWhile (fun c => c != '>' && c != '\n') ++ ['>']
  else s.takeWhile isNameChar

/-- Properties on one line, at most one anchor and one tag. -/
def properties : Nat → Properties → Read Properties
  | 0, p => return p
  | fuel + 1, p => do
    let cur ← here
    let rest := cur.rest.dropWhile isSpace
    let start := cur.skip (cur.rest.length - rest.length)
    match rest with
    | '&' :: _ =>
      goTo (start.skip 1)
      let n ← name
      if p.anchor.isSome then failure
      modify fun s => { s with anchors := (n, none) :: s.anchors }
      properties fuel { p with anchor := some n, given := true }
    | '!' :: _ =>
      let word := tagWord rest
      goTo (start.skip word.length)
      properties fuel { p with isText := textTags.contains (String.ofList word), given := true }
    | _ => return p

/-- Gives a node its tag and remembers it under its anchor. -/
def Properties.apply (p : Properties) (n : Node) : Read Node := do
  let n := match n with
    | .scalar _ text => if p.isText then .scalar false text else n
    | _ => n
  match p.anchor with
  | some name => modify fun s => { s with anchors := (name, some n) :: s.anchors }
  | none => pure ()
  return n

/-- The node that an alias names. -/
def aliased : Read Node := do
  skip 1
  let n ← name
  match (← get).anchors.lookup n with
  | some (some node) => return node
  | _ => failure

/-- A scalar or alias, and whether it lies on one line. -/
def simple (flow : Bool) (minCol : Nat) : Read (Node × Bool) := do
  let cur ← here
  match cur.rest with
  | '*' :: _ => return (← aliased, true)
  | '\'' :: _ | '"' :: _ =>
    let (text, one, next) ← lift (quoted? minCol cur)
    goTo next
    return (.scalar false text, one)
  | _ =>
    let (text, one, next) ← lift (plain? flow minCol cur)
    goTo next
    return (.scalar true text, one)

/-- The next place inside a flow collection. -/
def toNextInFlow (minCol : Nat) : Read (Option Char) := do
  let g ← toNext
  if g.cur.atEnd || (g.fresh && g.cur.col + 1 < minCol) then failure
  return g.cur.rest.head?

/-- Whether a colon here ends a key of a flow collection; after a quoted key or a collection no
blank needs to follow it. -/
def colonEndsKey (tight : Bool) (cur : Cursor) : Bool :=
  match cur.rest with
  | ':' :: r => tight || blankNext r || (r.head?.map isFlowMark).getD false
  | _ => false

/-- Goes past a question mark that announces a key, if one stands here. -/
def keyMark : Read Bool := do
  if (← here).atMark '?' then
    skip 1
    return true
  return false

mutual

/-- A node inside a flow collection, and whether a colon may follow it directly. -/
def flowNode : Nat → Nat → Read (Node × Bool)
  | 0, _ => failure
  | fuel + 1, minCol => do
    let _ ← toNextInFlow minCol
    let p ← properties 4 .bare
    let next ← toNextInFlow minCol
    match next with
    | some '[' =>
      skip 1
      return (← p.apply (.list (← flowItems fuel minCol [])), true)
    | some '{' =>
      skip 1
      return (← p.apply (.map (← flowEntries fuel minCol [])), true)
    | some c =>
      if p.given && (c == ',' || c == ']' || c == '}') then
        return (← p.apply .empty, false)
      let (n, _) ← simple true minCol
      return (← p.apply n, c == '"' || c == '\'')
    | none => failure

/-- The key after a question mark; it may be left out. -/
def flowKey : Nat → Nat → Read (Node × Bool)
  | 0, _ => failure
  | fuel + 1, minCol => do
    match ← toNextInFlow minCol with
    | some ',' | some ']' | some '}' => return (.empty, false)
    | _ => if (← here).atMark ':' then return (.empty, false) else flowNode fuel minCol

/-- The value after a colon; it may be left out. -/
def flowValue : Nat → Nat → Read Node
  | 0, _ => failure
  | fuel + 1, minCol => do
    match ← toNextInFlow minCol with
    | some ',' | some ']' | some '}' => return .empty
    | _ => return (← flowNode fuel minCol).1

def flowItems : Nat → Nat → List Node → Read (List Node)
  | 0, _, _ => failure
  | fuel + 1, minCol, acc => do
    if (← toNextInFlow minCol) == some ']' then
      skip 1
      return acc.reverse
    let marked ← keyMark
    let (n, tight) ← if marked then flowKey fuel minCol else flowNode fuel minCol
    let _ ← toNextInFlow minCol
    let mut item := if marked then .map [(n, .empty)] else n
    if colonEndsKey tight (← here) then
      skip 1
      item := .map [(n, ← flowValue fuel minCol)]
    match ← toNextInFlow minCol with
    | some ',' =>
      skip 1
      flowItems fuel minCol (item :: acc)
    | some ']' =>
      skip 1
      return (item :: acc).reverse
    | _ => failure

def flowEntries : Nat → Nat → List (Node × Node) → Read (List (Node × Node))
  | 0, _, _ => failure
  | fuel + 1, minCol, acc => do
    if (← toNextInFlow minCol) == some '}' then
      skip 1
      return acc.reverse
    let (k, tight) ← if ← keyMark then flowKey fuel minCol else flowNode fuel minCol
    let _ ← toNextInFlow minCol
    let mut v := Node.empty
    if colonEndsKey tight (← here) then
      skip 1
      v ← flowValue fuel minCol
    match ← toNextInFlow minCol with
    | some ',' =>
      skip 1
      flowEntries fuel minCol ((k, v) :: acc)
    | some '}' =>
      skip 1
      return ((k, v) :: acc).reverse
    | _ => failure

end

/-- A node that may be a key: a scalar, an alias or a flow collection on one line. -/
def keyNode (fuel minCol : Nat) : Read (Node × Bool) := do
  let cur ← here
  match cur.rest with
  | '[' :: _ | '{' :: _ => return ((← flowNode fuel minCol).1, true)
  | _ => simple false minCol

/-- Goes past a colon that ends a key on the same line, if one follows. -/
def keyColon : Read Bool := do
  let cur ← here
  let blanks := (cur.rest.takeWhile isSpace).length
  let next := cur.skip blanks
  if next.atMark ':' then
    goTo (next.skip 1)
    return true
  return false

/-- Nothing of a node stands here: the text ends, or the line is not indented enough. -/
def Gap.absent (g : Gap) (minCol : Nat) (listAtParent : Bool) : Bool :=
  g.cur.atEnd || (g.fresh && g.cur.col < minCol
    && !(listAtParent && g.cur.col + 1 == minCol && g.cur.atMark '-'))

mutual

/-- A node in block context. A list may stand in the column of the key it belongs to; a block
collection on the line of its indicator is allowed only if `compact`. -/
def blockNode : Nat → (minCol : Nat) → (listAtParent compact : Bool) → Read Node
  | 0, _, _, _ => failure
  | fuel + 1, minCol, listAtParent, compact => do
    let g ← peek
    if g.absent minCol listAtParent then return .empty
    if g.fresh && g.tabbed then failure
    goTo g.cur
    let p ← properties 4 .bare
    if !p.given then blockContent fuel minCol g.cur.col (g.fresh || compact) .bare
    else
      let next ← peek
      if next.absent minCol listAtParent then return ← p.apply .empty
      goTo next.cur
      if next.fresh then
        if next.tabbed then failure
        p.apply (← blockContent fuel minCol next.cur.col true .bare)
      else blockContent fuel minCol g.cur.col (g.fresh || compact) p

/-- The node that starts here; `p` are properties before it on its line. A mapping stands in the
column `col` of its first key or of that key's properties. -/
def blockContent : Nat → (minCol col : Nat) → (collection : Bool) → Properties → Read Node
  | 0, _, _, _, _ => failure
  | fuel + 1, minCol, col, collection, p => do
    let cur ← here
    if cur.atMark '-' then
      if !collection || p.given then failure
      return .list (← blockItems fuel cur.col [])
    else if cur.atMark '?' then
      if !collection || p.given then failure
      return .map (← blockEntries fuel cur.col [])
    else if cur.rest.head? = some '|' || cur.rest.head? = some '>' then
      let (text, next) ← lift (block? minCol cur)
      goTo next
      p.apply (.scalar false text)
    else
      let (n, oneLine) ← keyNode fuel minCol
      let n ← p.apply n
      if oneLine then
        if ← keyColon then
          if !collection then failure
          let v ← blockNode fuel (col + 1) true false
          return .map (← blockEntries fuel col [(n, v)])
      return n

/-- The items of a list in column `col`. -/
def blockItems : Nat → (col : Nat) → List Node → Read (List Node)
  | 0, _, _ => failure
  | fuel + 1, col, acc => do
    skip 1
    let item ← blockNode fuel (col + 1) false true
    let g ← peek
    if g.cur.atEnd || (g.fresh && g.cur.col < col) then return (item :: acc).reverse
    if !g.fresh || g.tabbed || g.cur.col != col then failure
    if g.cur.atMark '-' then
      goTo g.cur
      blockItems fuel col (item :: acc)
    else return (item :: acc).reverse

/-- Further entries of a mapping in column `col`. -/
def blockEntries : Nat → (col : Nat) → List (Node × Node) → Read (List (Node × Node))
  | 0, _, _ => failure
  | fuel + 1, col, acc => do
    let g ← peek
    if g.cur.atEnd || (g.fresh && g.cur.col < col) then return acc.reverse
    if !acc.isEmpty && (!g.fresh || g.tabbed || g.cur.col != col) then failure
    goTo g.cur
    if g.cur.atMark '-' then failure
    if g.cur.atMark '?' then
      skip 1
      let k ← blockNode fuel (col + 1) false true
      let g ← peek
      if g.fresh && g.cur.col == col && g.cur.atMark ':' then
        goTo (g.cur.skip 1)
        let v ← blockNode fuel (col + 1) false true
        blockEntries fuel col ((k, v) :: acc)
      else blockEntries fuel col ((k, .empty) :: acc)
    else
      let p ← properties 4 .bare
      if (← toNext).fresh && p.given then failure
      let (k, oneLine) ← keyNode fuel (col + 1)
      let k ← p.apply k
      if !oneLine then failure
      if !(← keyColon) then failure
      let v ← blockNode fuel (col + 1) true false
      blockEntries fuel col ((k, v) :: acc)

end

/-- Skips directive lines; tells whether there were any. -/
def directives : Nat → Bool → Read Bool
  | 0, seen => return seen
  | fuel + 1, seen => do
    let g ← peek
    if g.cur.col == 0 && g.cur.rest.head? = some '%' then
      goTo ⟨(cutLine g.cur.rest).2, 0⟩
      directives fuel true
    else return seen

/-- The one document of a text. -/
def document : Read Node := do
  let fuel := 4 * (← here).rest.length + 16
  let directed ← directives fuel false
  let start := (← peek).cur
  let opened := start.atMarker && start.rest.head? = some '-'
  if directed && !opened then failure
  if opened then goTo (start.skip 3)
  let root ← blockNode fuel 0 false (!opened)
  let g ← toNext
  if g.cur.atMarker && g.cur.rest.head? = some '.' then
    goTo (g.cur.skip 3)
    let g ← toNext
    if g.cur.rest.isEmpty then return root else failure
  else if g.cur.rest.isEmpty then return root
  else failure

/-- Line ends become `\n`. -/
def unifyLines : List Char → List Char
  | [] => []
  | '\r' :: '\n' :: r => '\n' :: unifyLines r
  | '\r' :: r => '\n' :: unifyLines r
  | c :: r => c :: unifyLines r

/-- The value of a text with at most one document; blank text is null. -/
def read (source : String) : Option Value :=
  let s := match source.toList with
    | c :: r => if c.toNat = 0xFEFF then r else c :: r
    | [] => []
  (document.run ⟨⟨unifyLines s, 0⟩, []⟩).bind fun (root, _) => root.toValue?

end Flowline.Yaml
