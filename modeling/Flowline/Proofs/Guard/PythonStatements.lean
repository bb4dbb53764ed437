import Flowline.Proofs.Guard.PythonImports

/-!
# Lists of imports

A source of nothing but imports, as it is written: statements with any white space between them,
several on a line, and lines with any ends. What the guard reads from it are the packages of all
that is imported, in order and with their lines, and nothing else.
-/
namespace Flowline.Guard.PythonStatements

open Text PythonText

/-! ### Grammar -/

/-- White space that ends no line. -/
def isSpace (c : Char) : Bool := isBlank c && !isLineEnd c

/-- A character of a name in ASCII. -/
def isNameChar (c : Char) : Bool := isNameStart c || '0' ≤ c && c ≤ '9'

/-- What can stand between two commas. -/
def isItemChar (c : Char) : Bool := isNameChar c || isSpace c || c == '.'

/-- What can stand between two semicolons. -/
def isInner (c : Char) : Bool := isItemChar c || c == ',' || c == '*' || c == '(' || c == ')'

structure Name where
  chars : List Char
  starts : chars.head?.any isNameStart = true
  ascii : chars.all isNameChar = true

/-- White space, or nothing. -/
structure Space where
  chars : List Char
  blank : chars.all isSpace = true

/-- White space that keeps two words apart. -/
structure Gap extends Space where
  nonempty : chars ≠ []

/-- A dotted name, without white space in it; the first name is that of a package. -/
structure Path where
  package : Name
  more : List Name

/-- A module that is imported, possibly under another name. -/
structure Item where
  before : Space
  path : Path
  other? : Option (Gap × Gap × Name)
  after : Space

/-- The names that are imported from a module, with commas, other names for them, a star or
parentheses. -/
structure Members where
  chars : List Char
  inner : chars.all isInner = true
  apart : wordEnds chars = true

inductive Statement where
  /-- `import a.b as c, d` -/
  | modules (gap : Gap) (first : Item) (more : List Item)
  /-- `from a.b import c as d, e` -/
  | members (gap : Gap) (path : Path) (gap' : Gap) (names : Members)

/-- What stands between two semicolons: a statement, or nothing. -/
structure Piece where
  indent : Space
  statement? : Option Statement

abbrev Line := List Piece

inductive LineEnd where
  | feed
  | returnFeed

/-- Lines with their ends, and a last one without. -/
structure Source where
  lines : List (Line × LineEnd)
  last : Line

/-! ### Text -/

def Path.chars (p : Path) : List Char := p.package.chars ++ p.more.flatMap fun n => '.' :: n.chars

def Item.renaming (i : Item) : List Char :=
  match i.other? with
  | some (gap, gap', name) => gap.chars ++ ("as".toList ++ (gap'.chars ++ name.chars))
  | none => []

def Item.chars (i : Item) : List Char :=
  i.before.chars ++ (i.path.chars ++ (i.renaming ++ i.after.chars))

def Statement.chars : Statement → List Char
  | modules gap first more =>
    "import".toList ++ (gap.chars ++ [','].intercalate ((first :: more).map Item.chars))
  | members gap path gap' names =>
    "from".toList ++ (gap.chars ++ (path.chars ++ (gap'.chars ++ ("import".toList ++ names.chars))))

def Piece.chars (p : Piece) : List Char :=
  p.indent.chars ++ match p.statement? with
    | some s => s.chars
    | none => []

def Line.chars (l : Line) : List Char := [';'].intercalate (l.map Piece.chars)

/-- What stands between a line and its line feed. -/
def LineEnd.returns : LineEnd → List Char
  | feed => []
  | returnFeed => ['\r']

def LineEnd.chars (e : LineEnd) : List Char := e.returns ++ ['\n']

def Source.chars (s : Source) : List Char :=
  s.lines.flatMap (fun p => Line.chars p.1 ++ p.2.chars) ++ Line.chars s.last

/-! ### Packages -/

def Statement.packages : Statement → List Name
  | modules _ first more => (first :: more).map (·.path.package)
  | members _ path _ _ => [path.package]

def Piece.packages (p : Piece) : List Name :=
  match p.statement? with
  | some s => s.packages
  | none => []

def Line.packages (l : Line) : List Name := l.flatMap Piece.packages

/-- The packages of all that is imported, with the lines where this is done. -/
def Source.references (s : Source) : List ModuleRef :=
  (s.lines.map (·.1) ++ [s.last]).zipIdx.flatMap fun (l, i) =>
    (Line.packages l).map fun name => ⟨String.ofList name.chars, i + 1⟩

/-! ### Characters -/

theorem isWord_of_isNameChar {c : Char} (h : isNameChar c = true) :
    isWord c = true ∧ isBlank c = false := by
  have hcode :
      Ranges.has [(0x30, 0x39), (0x41, 0x5A), (0x5F, 0x5F), (0x61, 0x7A)] c.toNat = true := by
    simp only [isNameChar, isNameStart, Bool.or_eq_true, Bool.and_eq_true, beq_iff_eq,
      decide_eq_true_eq, Char.le_def, UInt32.le_iff_toNat_le] at h
    change ((c = '_' ∨ 0x61 ≤ c.toNat ∧ c.toNat ≤ 0x7A) ∨ 0x41 ≤ c.toNat ∧ c.toNat ≤ 0x5A) ∨
      0x30 ≤ c.toNat ∧ c.toNat ≤ 0x39 at h
    simp only [Ranges.has, Bool.and_eq_true, Bool.or_eq_true, decide_eq_true_eq,
      Bool.false_eq_true, or_false]
    obtain ((rfl | h) | h) | h := h
    · decide
    · omega
    · omega
    · omega
  have hall : ∀ n ∈ Ranges.codes [(0x30, 0x39), (0x41, 0x5A), (0x5F, 0x5F), (0x61, 0x7A)],
      wordRanges.has n = true ∧ blankRanges.has n = false := by
    decide +kernel
  exact hall _ (Ranges.mem_codes_of_has hcode)

theorem isBlank_of_isSpace {c : Char} (h : isSpace c = true) : isBlank c = true :=
  (Bool.and_eq_true_iff.mp h).1

theorem Space.isBlank (s : Space) : ∀ c ∈ s.chars, isBlank c = true :=
  fun c hc => isBlank_of_isSpace (List.all_eq_true.mp s.blank c hc)

theorem Name.isPackage (n : Name) : isPackage n.chars = true := by
  refine Bool.and_eq_true_iff.mpr ⟨n.starts, List.all_eq_true.mpr fun c hc => ?_⟩
  obtain ⟨hword, hblank⟩ := isWord_of_isNameChar (List.all_eq_true.mp n.ascii c hc)
  rw [hword, hblank]
  rfl

theorem Name.isItemChar (n : Name) : ∀ c ∈ n.chars, isItemChar c = true := fun c hc => by
  simp [PythonStatements.isItemChar, List.all_eq_true.mp n.ascii c hc]

theorem Space.isItemChar (s : Space) : ∀ c ∈ s.chars, isItemChar c = true := fun c hc => by
  simp [PythonStatements.isItemChar, List.all_eq_true.mp s.blank c hc]

theorem Path.isItemChar (p : Path) : ∀ c ∈ p.chars, isItemChar c = true := by
  rw [Path.chars, List.forall_mem_append]
  refine ⟨p.package.isItemChar, fun c hc => ?_⟩
  obtain ⟨n, -, hc⟩ := List.mem_flatMap.mp hc
  obtain rfl | hc := List.mem_cons.mp hc
  · decide
  · exact n.isItemChar c hc

theorem Item.isItemChar (i : Item) : ∀ c ∈ i.chars, isItemChar c = true := by
  have hrenaming : ∀ c ∈ i.renaming, PythonStatements.isItemChar c = true := by
    unfold Item.renaming
    split
    · rename_i gap gap' name _
      simp only [List.forall_mem_append]
      exact ⟨gap.isItemChar, List.all_eq_true.mp (by decide), gap'.isItemChar, name.isItemChar⟩
    · exact List.forall_mem_nil _
  simp only [Item.chars, List.forall_mem_append]
  exact ⟨i.before.isItemChar, i.path.isItemChar, hrenaming, i.after.isItemChar⟩

theorem isInner_of_isItemChar {c : Char} (h : isItemChar c = true) : isInner c = true := by
  simp [isInner, h]

theorem forall_mem_intercalate {p : Char → Prop} {sep : Char} {pieces : List (List Char)}
    (hsep : p sep) (h : ∀ piece ∈ pieces, ∀ c ∈ piece, p c) :
    ∀ c ∈ [sep].intercalate pieces, p c := by
  induction pieces with
  | nil => exact List.forall_mem_nil _
  | cons piece pieces ih =>
    obtain ⟨hpiece, hrest⟩ := List.forall_mem_cons.mp h
    cases pieces with
    | nil => rwa [List.intercalate_singleton]
    | cons next pieces =>
      rw [List.intercalate_cons_cons]
      simp only [List.forall_mem_append, List.forall_mem_singleton]
      exact ⟨⟨hpiece, hsep⟩, ih hrest⟩

theorem Statement.isInner (s : Statement) : ∀ c ∈ s.chars, isInner c = true := by
  cases s with
  | modules gap first more =>
    change ∀ c ∈ "import".toList ++
      (gap.chars ++ [','].intercalate ((first :: more).map Item.chars)),
        PythonStatements.isInner c = true
    simp only [List.forall_mem_append]
    refine ⟨List.all_eq_true.mp (by decide),
      fun c hc => isInner_of_isItemChar (gap.isItemChar c hc),
      forall_mem_intercalate (by decide) fun piece hpiece c hc => ?_⟩
    obtain ⟨i, -, rfl⟩ := List.mem_map.mp hpiece
    exact isInner_of_isItemChar (i.isItemChar c hc)
  | members gap path gap' names =>
    change ∀ c ∈ "from".toList ++ (gap.chars ++
      (path.chars ++ (gap'.chars ++ ("import".toList ++ names.chars)))),
        PythonStatements.isInner c = true
    simp only [List.forall_mem_append]
    exact ⟨List.all_eq_true.mp (by decide), fun c hc => isInner_of_isItemChar (gap.isItemChar c hc),
      fun c hc => isInner_of_isItemChar (path.isItemChar c hc),
      fun c hc => isInner_of_isItemChar (gap'.isItemChar c hc), List.all_eq_true.mp (by decide),
      List.all_eq_true.mp names.inner⟩

theorem Piece.isInner (p : Piece) : ∀ c ∈ p.chars, isInner c = true := by
  rw [Piece.chars, List.forall_mem_append]
  refine ⟨fun c hc => isInner_of_isItemChar (p.indent.isItemChar c hc), ?_⟩
  split
  · exact Statement.isInner _
  · exact List.forall_mem_nil _

theorem isInner_line (l : Line) : ∀ c ∈ Line.chars l, isInner c = true ∨ c = ';' := by
  refine forall_mem_intercalate (Or.inr rfl) fun piece hpiece c hc => ?_
  obtain ⟨p, -, rfl⟩ := List.mem_map.mp hpiece
  exact Or.inl (p.isInner c hc)

/-! ### Reading -/

/-- After the module of an item comes white space, if anything. -/
theorem isBlank_head?_renaming (i : Item) :
    ∀ c ∈ (i.renaming ++ i.after.chars).head?, isBlank c = true := by
  intro c hc
  unfold Item.renaming at hc
  split at hc
  · rename_i gap gap' name _
    obtain ⟨d, rest, hgap⟩ := List.exists_cons_of_ne_nil gap.nonempty
    rw [hgap] at hc
    obtain rfl := Option.some.inj hc
    exact gap.isBlank _ (hgap ▸ List.mem_cons_self)
  · exact i.after.isBlank c (List.mem_of_mem_head? hc)

theorem package?_item {lead : List Char} (hlead : ∀ c ∈ lead, isBlank c = true) (i : Item) :
    package? ((skipBlank (lead ++ i.chars)).takeWhile fun c => !isBlank c) =
      some i.path.package.chars := by
  have hchars : lead ++ i.chars = lead ++ i.before.chars ++ i.path.package.chars ++
      ((i.path.more.flatMap fun n => '.' :: n.chars) ++ (i.renaming ++ i.after.chars)) := by
    simp [Item.chars, Path.chars]
  rw [hchars]
  refine package?_part i.path.package.isPackage ?_ fun c hc => ?_
  · rw [List.forall_mem_append]
    exact ⟨hlead, i.before.isBlank⟩
  · cases hmore : i.path.more with
    | cons n more =>
      rw [hmore] at hc
      exact Or.inr (Option.some.inj hc).symm
    | nil =>
      rw [hmore] at hc
      exact Or.inl (isBlank_head?_renaming i c hc)

theorem append_intercalate (sep : Char) (lead piece : List Char) (pieces : List (List Char)) :
    lead ++ [sep].intercalate (piece :: pieces) =
      [sep].intercalate ((lead ++ piece) :: pieces) := by
  cases pieces with
  | nil => simp
  | cons next pieces => simp [List.intercalate_cons_cons]

theorem not_mem_item (i : Item) : ',' ∉ i.chars := fun h =>
  absurd (i.isItemChar _ h) (by decide)

theorem item_ne_nil (i : Item) : i.chars ≠ [] := by
  have hne := ne_nil_of_isPackage i.path.package.isPackage
  simp [Item.chars, Path.chars, hne]

/-- The packages of all items are read; the list begins after some white space. -/
theorem filterMap_package?_items {lead : List Char} (hlead : ∀ c ∈ lead, isBlank c = true)
    (first : Item) (more : List Item) :
    ((lead ++ first.chars) :: more.map Item.chars).filterMap
      (fun part => package? ((skipBlank part).takeWhile fun c => !isBlank c)) =
        (first :: more).map (·.path.package.chars) := by
  have hmore : (more.map Item.chars).filterMap
      (fun part => package? ((skipBlank part).takeWhile fun c => !isBlank c)) =
        more.map (·.path.package.chars) := by
    rw [List.filterMap_map, ← List.filterMap_eq_map]
    exact List.filterMap_congr fun i _ => package?_item (List.forall_mem_nil _) i
  have hfirst := package?_item hlead first
  rw [List.filterMap_cons, hfirst, hmore, List.map_cons]

theorem statementPackages_statement {indent : List Char} (hindent : ∀ c ∈ indent, isBlank c = true)
    (s : Statement) : statementPackages (indent ++ s.chars) = s.packages.map (·.chars) := by
  cases s with
  | modules gap first more =>
    obtain ⟨c, lead, hgap⟩ := List.exists_cons_of_ne_nil gap.nonempty
    obtain ⟨hc, hlead⟩ := List.forall_mem_cons.mp (hgap ▸ gap.isBlank)
    have hchars : indent ++ (Statement.modules gap first more).chars = indent ++ "import".toList ++
        c :: [','].intercalate ((lead ++ first.chars) :: more.map Item.chars) := by
      change indent ++ ("import".toList ++
        (gap.chars ++ [','].intercalate ((first :: more).map Item.chars))) = _
      rw [← append_intercalate, hgap]
      simp
    have hne : [','].intercalate ((lead ++ first.chars) :: more.map Item.chars) ≠ [] := by
      have hitem := item_ne_nil first
      cases more <;> simp [List.intercalate_cons_cons, hitem]
    have hparts : ∀ part ∈ (lead ++ first.chars) :: more.map Item.chars, ',' ∉ part := by
      rw [List.forall_mem_cons]
      refine ⟨fun h => ?_, fun part hpart => ?_⟩
      · obtain h | h := List.mem_append.mp h
        · exact absurd (hlead _ h) (by decide)
        · exact not_mem_item first h
      · obtain ⟨i, -, rfl⟩ := List.mem_map.mp hpart
        exact not_mem_item i
    rw [hchars, statementPackages, imported?_eq hindent hc hne,
      splitChars_intercalate (List.cons_ne_nil _ _) hparts, filterMap_package?_items hlead]
    simp [Statement.packages]
  | members gap path gap' names =>
    have hpath : (path.more.flatMap fun n => '.' :: n.chars) = [] ∨
        (path.more.flatMap fun n => '.' :: n.chars).head? = some '.' := by
      cases path.more with
      | nil => exact Or.inl rfl
      | cons n more => exact Or.inr rfl
    have hdotted : ∀ c ∈ path.more.flatMap fun n => '.' :: n.chars, isDotted c = true := by
      intro c hc
      obtain ⟨n, -, hc⟩ := List.mem_flatMap.mp hc
      obtain rfl | hc := List.mem_cons.mp hc
      · rfl
      · exact isDotted_of_isPackage n.isPackage c hc
    exact statementPackages_members path.package.isPackage hindent gap.nonempty gap.isBlank hpath
      hdotted gap'.nonempty gap'.isBlank names.apart

theorem statementPackages_blank {s : List Char} (h : ∀ c ∈ s, isBlank c = true) :
    statementPackages s = [] := by
  have hskip : skipBlank s = [] := List.append_nil s ▸ skipBlank_append h []
  rw [statementPackages, imported?, importedFrom?, hskip]
  rfl

theorem statementPackages_piece (p : Piece) :
    statementPackages p.chars = p.packages.map (·.chars) := by
  unfold Piece.chars Piece.packages
  split
  · exact statementPackages_statement p.indent.isBlank _
  · rw [List.append_nil]
    exact statementPackages_blank p.indent.isBlank

/-- A call of the import function needs a quote. -/
theorem importCall?_eq_none {s : List Char} (h : ∀ c ∈ s, isQuote c = false) :
    importCall? s = none := by
  rw [Option.eq_none_iff_forall_ne_some]
  intro r hr
  simp only [importCall?, Option.bind_eq_bind, Option.bind_eq_some_iff] at hr
  obtain ⟨called, hcalled, opened, hopened, quoted, hquoted, -⟩ := hr
  obtain ⟨gap, hgap, -⟩ := exists_skipBlank called
  obtain ⟨d, hd, -⟩ := oneOf?_eq_some hopened
  obtain ⟨gap', hgap', -⟩ := exists_skipBlank opened
  obtain ⟨q, hq, hquote⟩ := oneOf?_eq_some hquoted
  have hmem : q ∈ s := by
    rw [eq_append_of_after? hcalled, hgap, hd, hgap', hq]
    simp
  rw [h q hmem] at hquote
  cases hquote

theorem not_mem_line (l : Line) {c : Char} (hc : isInner c = false) (hne : c ≠ ';') :
    c ∉ Line.chars l := fun hmem => by
  obtain h | h := isInner_line l c hmem
  · rw [hc] at h
    cases h
  · exact hne h

theorem pythonPackages_line (l : Line) :
    pythonPackages (Line.chars l) = (Line.packages l).map (·.chars) := by
  have hquote : ∀ c ∈ Line.chars l, isQuote c = false := by
    intro c hc
    have hsingle : c ≠ '\'' := fun h => not_mem_line l (by decide) (by decide) (h ▸ hc)
    have hdouble : c ≠ '"' := fun h => not_mem_line l (by decide) (by decide) (h ▸ hc)
    simp [isQuote, hsingle, hdouble]
  have hcalls : searchAll (fun _ s => importCall? s) 0 none (Line.chars l) = [] :=
    searchAll_eq_nil (fun _ t ht => importCall?_eq_none fun c hc => hquote c (ht.subset hc)) _ _
  rw [pythonPackages, hcalls, List.filterMap_nil, List.append_nil]
  cases l with
  | nil => rfl
  | cons p l =>
    have hpieces : ∀ piece ∈ (p :: l).map Piece.chars, ';' ∉ piece := by
      intro piece hpiece hmem
      obtain ⟨p, -, rfl⟩ := List.mem_map.mp hpiece
      exact absurd (p.isInner _ hmem) (by decide)
    rw [Line.chars, splitChars_intercalate (by simp) hpieces, List.flatMap_map, Line.packages,
      List.map_flatMap]
    exact List.flatMap_congr fun p _ => statementPackages_piece p

/-! ### Sources -/

theorem stripReturn_line (l : Line) (e : LineEnd) :
    stripReturn (Line.chars l ++ e.returns) = Line.chars l := by
  cases e with
  | feed =>
    have hlast : (Line.chars l).getLast? ≠ some '\r' := fun h =>
      not_mem_line l (by decide) (by decide) (List.mem_of_getLast? h)
    simp [LineEnd.returns, stripReturn, hlast]
  | returnFeed => simp [LineEnd.returns, stripReturn]

theorem lineChars_source (s : Source) :
    lineChars s.chars = s.lines.map (fun p => Line.chars p.1) ++ lineChars (Line.chars s.last) := by
  have hchars : s.chars = unlines (s.lines.map fun p => Line.chars p.1 ++ p.2.returns) ++
      Line.chars s.last := by
    rw [Source.chars, unlines, List.flatMap_map]
    simp [LineEnd.chars]
  have hfeed : ∀ l ∈ s.lines.map (fun p => Line.chars p.1 ++ p.2.returns), '\n' ∉ l := by
    intro l hl hmem
    obtain ⟨⟨l, e⟩, -, rfl⟩ := List.mem_map.mp hl
    obtain h | h := List.mem_append.mp hmem
    · exact not_mem_line l (by decide) (by decide) h
    · cases e <;> simp [LineEnd.returns] at h
  rw [hchars, lineChars_unlines_append hfeed, List.map_map]
  exact congrArg (· ++ lineChars (Line.chars s.last))
    (List.map_congr_left fun p _ => stripReturn_line p.1 p.2)

/-- An empty last line has nothing to read. -/
theorem flatMap_lineChars {α : Type} {f : List Char × Nat → List α} (hf : ∀ i, f ([], i) = [])
    {line : List Char} (h : '\n' ∉ line) (ls : List (List Char)) :
    (ls ++ lineChars line).zipIdx.flatMap f = (ls ++ [line]).zipIdx.flatMap f := by
  by_cases hne : line = []
  · subst hne
    rw [lineChars_nil, List.append_nil, List.zipIdx_append, List.flatMap_append]
    simp [hf]
  · rw [lineChars_of_not_mem h hne]

/-- What is read from a source of imports are the packages of all that is imported, in order and
with their lines. -/
theorem moduleRefs_source (s : Source) : moduleRefs .python s.chars = s.references := by
  have hlast : '\n' ∉ Line.chars s.last := not_mem_line s.last (by decide) (by decide)
  have hlines : s.lines.map (fun p => Line.chars p.1) ++ [Line.chars s.last] =
      (s.lines.map (·.1) ++ [s.last]).map Line.chars := by
    simp
  rw [moduleRefs, lineChars_source, flatMap_lineChars (fun i => rfl) hlast, hlines,
    List.zipIdx_map, List.flatMap_map, Source.references]
  refine List.flatMap_congr fun p _ => ?_
  obtain ⟨l, i⟩ := p
  change (pythonPackages (Line.chars l)).map _ = _
  rw [pythonPackages_line, List.map_map]
  rfl

def noSpace : Space := ⟨[], rfl⟩

def oneSpace : Gap := ⟨⟨[' '], by decide⟩, by decide⟩

/-- Another name for a module, a carriage return, a tab, and a semicolon with nothing after it. -/
def threeImports : Source where
  lines := [([⟨noSpace, some (.modules oneSpace
      ⟨noSpace, ⟨⟨['p', 'd'], by decide, by decide⟩, [⟨['x'], by decide, by decide⟩]⟩,
        some (oneSpace, oneSpace, ⟨['y'], by decide, by decide⟩), noSpace⟩
      [⟨oneSpace.toSpace, ⟨⟨['m', '2'], by decide, by decide⟩, []⟩, none, noSpace⟩])⟩],
    .returnFeed)]
  last := [⟨⟨['\t'], by decide⟩, some (.members oneSpace
      ⟨⟨['o', 's'], by decide, by decide⟩, [⟨['p'], by decide, by decide⟩]⟩ oneSpace
      ⟨[' ', '*'], by decide, by decide⟩)⟩, ⟨noSpace, none⟩]

theorem threeImports_read :
    threeImports.chars = "import pd.x as y, m2\r\n\tfrom os.p import *;".toList ∧
      moduleRefs .python threeImports.chars = [⟨"pd", 1⟩, ⟨"m2", 1⟩, ⟨"os", 2⟩] :=
  ⟨by decide +kernel, (moduleRefs_source threeImports).trans (by decide +kernel)⟩

end Flowline.Guard.PythonStatements
