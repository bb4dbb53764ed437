import Flowline.Proofs.Guard.PythonText
import Flowline.Proofs.Text.Scan

/-!
# Imports of Python

An import statement on one line that begins a line, or follows a semicolon, shows the guard its
package. The guard looks for imports nowhere else: a statement after the header of a compound
statement, or one that goes on over an escaped line end, loads its package unseen.
-/
namespace Flowline.Guard.PythonText

open Text

/-- White space within a line. -/
def isGap (c : Char) : Bool := c == ' ' || c == '\t' || c == '\x0c'

/-- Neither ends a line or a statement, nor begins a string, a comment or an escaped line end. -/
def isPlain (c : Char) : Bool :=
  !(isLineEnd c || isQuote c || c == '#' || c == ';' || c == '\\')

/-- The name of a package. -/
def isPackage (name : List Char) : Bool :=
  name.head?.any isNameStart && name.all fun c => isWord c && !isBlank c

/-- The name of a module ends here. -/
def nameEnds : List Char → Bool
  | [] => true
  | c :: _ => isGap c || isLineEnd c || c == '.' || c == ',' || c == ';' || c == '#'

/-- A text that begins with a statement on one line that imports the package, or something in it:
`import a, name.b as c` or `from name.a import b`. -/
inductive Imports (name : List Char) : List Char → Prop
  | module {gap names lead rest : List Char} (hgap : gap ≠ [])
      (hblank : ∀ c ∈ gap, isGap c = true) (hnames : names = [] ∨ names.getLast? = some ',')
      (hplain : ∀ c ∈ names, isPlain c = true) (hlead : ∀ c ∈ lead, isGap c = true)
      (hrest : nameEnds rest = true) :
      Imports name ("import".toList ++ gap ++ names ++ lead ++ name ++ rest)
  | members {gap path gap' rest : List Char} (hgap : gap ≠ [])
      (hblank : ∀ c ∈ gap, isGap c = true) (hpath : path = [] ∨ path.head? = some '.')
      (hdotted : ∀ c ∈ path, isDotted c = true) (hgap' : gap' ≠ [])
      (hblank' : ∀ c ∈ gap', isGap c = true) (hrest : wordEnds rest = true) :
      Imports name ("from".toList ++ gap ++ name ++ path ++ gap' ++ "import".toList ++ rest)

/-- The beginning of a statement, as the guard sees it: in code, at the beginning of a line or
after a semicolon. -/
structure BeginsStatement (before : List Char) : Prop where
  unbroken : reading.unbroken .code before = true
  code : reading.scan .code before = .code
  edge : before = [] ∨ before.getLast? = some '\n' ∨ before.getLast? = some ';'

/-! ### Characters -/

theorem isBlank_of_isGap {c : Char} (h : isGap c = true) : isBlank c = true := by
  obtain (rfl | rfl) | rfl : (c = ' ' ∨ c = '\t') ∨ c = '\x0c' := by simpa [isGap] using h
  all_goals decide

theorem isPlain_of_isGap {c : Char} (h : isGap c = true) : isPlain c = true := by
  obtain (rfl | rfl) | rfl : (c = ' ' ∨ c = '\t') ∨ c = '\x0c' := by simpa [isGap] using h
  all_goals decide

theorem isDotted_of_isBlank {c : Char} (h : isBlank c = true) : isDotted c = false := by
  have hdot : c ≠ '.' := by
    rintro rfl
    exact absurd h (by decide)
  rw [isDotted, isWord_of_isBlank h, Bool.or_false]
  simpa using hdot

theorem isPlain_of_isDotted {c : Char} (h : isDotted c = true) : isPlain c = true := by
  have hne : ∀ d, isDotted d = false → c ≠ d := by
    rintro d hd rfl
    rw [hd] at h
    cases h
  simp [isPlain, isLineEnd, isQuote, hne '\n' (by decide), hne '\r' (by decide),
    hne '\'' (by decide), hne '"' (by decide), hne '#' (by decide), hne ';' (by decide),
    hne '\\' (by decide)]

theorem not_isLineEnd_of_isPlain {c : Char} (h : isPlain c = true) : isLineEnd c = false := by
  simp only [isPlain, Bool.not_eq_true', Bool.or_eq_false_iff] at h
  exact h.1.1.1.1

theorem nextInCode_of_isPlain {c : Char} (h : isPlain c = true) : nextInCode c = .code := by
  simp only [isPlain, isQuote, Bool.not_eq_true', Bool.or_eq_false_iff, beq_eq_false_iff_ne] at h
  simp [nextInCode, Quote.char, h]

theorem scan_plain {s : List Char} (h : ∀ c ∈ s, isPlain c = true) :
    reading.scan .code s = .code := by
  induction s with
  | nil => rfl
  | cons c s ih =>
    obtain ⟨hc, hs⟩ := List.forall_mem_cons.mp h
    rw [Reading.scan_cons]
    exact (congrArg (reading.scan · s) (nextInCode_of_isPlain hc)).trans (ih hs)

/-! ### Package names -/

section isPackage

variable {name : List Char}

theorem ne_nil_of_isPackage (h : isPackage name = true) : name ≠ [] := by
  rintro rfl
  cases h

theorem isNameStart_of_isPackage (h : isPackage name = true) : name.head?.any isNameStart = true :=
  (Bool.and_eq_true_iff.mp h).1

theorem isWord_of_isPackage (h : isPackage name = true) : ∀ c ∈ name, isWord c = true := fun c hc =>
  (Bool.and_eq_true_iff.mp (List.all_eq_true.mp (Bool.and_eq_true_iff.mp h).2 c hc)).1

theorem not_isBlank_of_isPackage (h : isPackage name = true) : ∀ c ∈ name, isBlank c = false :=
  fun c hc => by
    simpa using (Bool.and_eq_true_iff.mp
      (List.all_eq_true.mp (Bool.and_eq_true_iff.mp h).2 c hc)).2

theorem isDotted_of_isPackage (h : isPackage name = true) : ∀ c ∈ name, isDotted c = true :=
  fun c hc => by rw [isDotted, isWord_of_isPackage h c hc, Bool.or_true]

theorem not_mem_of_isPackage (h : isPackage name = true) {c : Char} (hc : isWord c = false) :
    c ∉ name := fun hmem => by
  rw [isWord_of_isPackage h c hmem] at hc
  cases hc

theorem package?_append (h : isPackage name = true) {path : List Char}
    (hpath : path = [] ∨ path.head? = some '.') : package? (name ++ path) = some name := by
  have htop : (name ++ path).takeWhile (· ≠ '.') = name := by
    refine takeWhile_run (fun c hc => ?_) ?_
    · have hdot : c ≠ '.' := by
        rintro rfl
        exact not_mem_of_isPackage h (by decide) hc
      simpa using hdot
    · obtain rfl | hhead := hpath
      · rfl
      · rw [hhead]
        rfl
  rw [package?, htop, trimChars_of_none (not_isBlank_of_isPackage h)]
  simp [ne_nil_of_isPackage h]

/-- Modules that need a capability are packages. -/
theorem isPackage_of_capability? {name : String} {capability : Capability}
    (h : capability? .python name = some capability) : isPackage name.toList = true := by
  have hall : ∀ p ∈ restricted .python, isPackage p.1.toList = true := by decide +kernel
  obtain ⟨l, l', hl, -⟩ := List.lookup_eq_some_iff.mp h
  exact hall (name, capability) (hl ▸ List.mem_append_right l List.mem_cons_self)

end isPackage

/-! ### Statements -/

section statements

variable {indent gap gap' names lead path name t : List Char}

theorem imported?_eq {c : Char} (hindent : ∀ c ∈ indent, isBlank c = true) (hc : isBlank c = true)
    (hne : t ≠ []) :
    imported? (indent ++ "import".toList ++ c :: t) = some ((splitChars ',' t).filterMap fun part =>
      package? ((skipBlank part).takeWhile fun c => !isBlank c)) := by
  obtain ⟨d, t, rfl⟩ := List.exists_cons_of_ne_nil hne
  have hskip : skipBlank (indent ++ "import".toList ++ c :: d :: t) =
      "import".toList ++ c :: d :: t := by
    rw [List.append_assoc, skipBlank_append hindent]
    exact skipBlank_cons (by decide) _
  simp only [imported?, hskip, after?_append, Option.bind_eq_bind, Option.bind_some, hc, if_true]
  rfl

/-- One part of an import list names its package before anything else. -/
theorem package?_part (hname : isPackage name = true) (hlead : ∀ c ∈ lead, isBlank c = true)
    (ht : ∀ c ∈ t.head?, isBlank c = true ∨ c = '.') :
    package? ((skipBlank (lead ++ name ++ t)).takeWhile fun c => !isBlank c) = some name := by
  obtain ⟨c, rest, rfl⟩ := List.exists_cons_of_ne_nil (ne_nil_of_isPackage hname)
  have hsolid := not_isBlank_of_isPackage hname
  have hskip : skipBlank (lead ++ (c :: rest) ++ t) = c :: rest ++ t := by
    rw [List.append_assoc, skipBlank_append hlead]
    exact skipBlank_cons (hsolid c List.mem_cons_self) _
  rw [hskip, List.takeWhile_append_of_pos fun d hd => by simp [hsolid d hd]]
  refine package?_append hname ?_
  cases t with
  | nil => exact Or.inl rfl
  | cons d t =>
    obtain hd | rfl := ht d rfl
    · exact Or.inl (List.takeWhile_cons_of_neg (by simp [hd]))
    · exact Or.inr (by rw [List.takeWhile_cons_of_pos (by decide), List.head?_cons])

/-- The part of an import list with the name, and the gaps before it. -/
theorem exists_part {part after : List Char} (hname : isPackage name = true)
    (hgap : ∀ c ∈ gap, isGap c = true) (hnames : names = [] ∨ names.getLast? = some ',')
    (hlead : ∀ c ∈ lead, isGap c = true) (hpart : ',' ∉ part)
    (hafter : after = [] ∨ after.head? = some ',') :
    ∃ lead', (∀ c ∈ lead', isGap c = true) ∧
      lead' ++ name ++ part ∈ splitChars ',' (gap ++ names ++ lead ++ name ++ (part ++ after)) := by
  have hnoComma : ∀ lead', (∀ c ∈ lead', isGap c = true) → ',' ∉ lead' ++ name ++ part := by
    intro lead' hlead' hmem
    rw [List.mem_append, List.mem_append] at hmem
    obtain (hmem | hmem) | hmem := hmem
    · exact absurd (hlead' _ hmem) (by decide)
    · exact not_mem_of_isPackage hname (by decide) hmem
    · exact hpart hmem
  obtain rfl | hcomma := hnames
  · have hgaps : ∀ c ∈ gap ++ lead, isGap c = true :=
      fun c hc => (List.mem_append.mp hc).elim (hgap c) (hlead c)
    refine ⟨gap ++ lead, hgaps, ?_⟩
    simpa using mem_splitChars (Or.inl rfl) (hnoComma _ hgaps) hafter
  · have hlast : (gap ++ names).getLast? = some ',' := by
      rw [List.getLast?_append, hcomma, Option.some_or]
    refine ⟨lead, hlead, ?_⟩
    simpa using mem_splitChars (Or.inr hlast) (hnoComma _ hlead) hafter

/-- An import list names each of its packages. -/
theorem mem_statementPackages_module (hname : isPackage name = true)
    (hindent : ∀ c ∈ indent, isGap c = true) (hgap : gap ≠ [])
    (hblank : ∀ c ∈ gap, isGap c = true) (hnames : names = [] ∨ names.getLast? = some ',')
    (hlead : ∀ c ∈ lead, isGap c = true)
    (ht : ∀ c ∈ t.head?, isBlank c = true ∨ c = '.' ∨ c = ',') :
    name ∈ statementPackages
      (indent ++ ("import".toList ++ gap ++ names ++ lead ++ name) ++ t) := by
  obtain ⟨c, gap, rfl⟩ := List.exists_cons_of_ne_nil hgap
  obtain ⟨hc, hblank⟩ := List.forall_mem_cons.mp hblank
  obtain ⟨part, after, rfl, hpart, hafter⟩ := exists_piece ',' t
  obtain ⟨lead', hlead', hmem⟩ := exists_part hname hblank hnames hlead hpart hafter
  have hhead : ∀ c ∈ part.head?, isBlank c = true ∨ c = '.' := by
    intro c hc
    obtain hblank | hdot | rfl := ht c (mem_head?_mono (List.prefix_append part after) hc)
    · exact Or.inl hblank
    · exact Or.inr hdot
    · exact absurd (List.mem_of_mem_head? hc) hpart
  have himported := imported?_eq (t := gap ++ names ++ lead ++ name ++ (part ++ after))
    (fun c hc => isBlank_of_isGap (hindent c hc)) (isBlank_of_isGap hc)
    (by simp [ne_nil_of_isPackage hname])
  have hstatement : indent ++ ("import".toList ++ c :: gap ++ names ++ lead ++ name) ++
      (part ++ after) = indent ++ "import".toList ++
        c :: (gap ++ names ++ lead ++ name ++ (part ++ after)) := by
    simp
  rw [statementPackages, hstatement, himported]
  exact List.mem_filterMap.mpr
    ⟨_, hmem, package?_part hname (fun c hc => isBlank_of_isGap (hlead' c hc)) hhead⟩

/-- Gaps are skipped up to a character that is not white space. -/
theorem skipSomeBlank?_gap {c : Char} (hgap : gap ≠ []) (hblank : ∀ c ∈ gap, isBlank c = true)
    (hc : isBlank c = false) (s : List Char) : skipSomeBlank? (gap ++ c :: s) = some (c :: s) := by
  rw [skipSomeBlank?_append hgap hblank, skipBlank_cons hc]

theorem importedFrom?_eq (hname : isPackage name = true) (hindent : ∀ c ∈ indent, isBlank c = true)
    (hgap : gap ≠ []) (hblank : ∀ c ∈ gap, isBlank c = true)
    (hpath : path = [] ∨ path.head? = some '.') (hdotted : ∀ c ∈ path, isDotted c = true)
    (hgap' : gap' ≠ []) (hblank' : ∀ c ∈ gap', isBlank c = true) (ht : wordEnds t = true) :
    importedFrom? (indent ++ ("from".toList ++
      (gap ++ (name ++ path ++ (gap' ++ ("import".toList ++ t)))))) = some name := by
  have hskip : skipBlank (indent ++ ("from".toList ++
      (gap ++ (name ++ path ++ (gap' ++ ("import".toList ++ t)))))) =
        "from".toList ++ (gap ++ (name ++ path ++ (gap' ++ ("import".toList ++ t)))) := by
    rw [skipBlank_append hindent]
    exact skipBlank_cons (by decide) _
  obtain ⟨c, rest, rfl⟩ := List.exists_cons_of_ne_nil (ne_nil_of_isPackage hname)
  have hdot : ∀ e ∈ c :: rest ++ path, isDotted e = true := fun e he =>
    (List.mem_append.mp he).elim (isDotted_of_isPackage hname e) (hdotted e)
  have hafter : (gap' ++ ("import".toList ++ t)).head?.any isDotted = false := by
    obtain ⟨d, gap', rfl⟩ := List.exists_cons_of_ne_nil hgap'
    simp [isDotted_of_isBlank (hblank' d List.mem_cons_self)]
  have hrun : some? isDotted (c :: rest ++ path ++ (gap' ++ ("import".toList ++ t))) =
      some (c :: rest ++ path, gap' ++ ("import".toList ++ t)) :=
    some?_run (List.cons_ne_nil _ _) hdot hafter
  have hgaps : skipSomeBlank? (gap ++ (c :: rest ++ path ++ (gap' ++ ("import".toList ++ t)))) =
      some (c :: rest ++ path ++ (gap' ++ ("import".toList ++ t))) :=
    skipSomeBlank?_gap hgap hblank (not_isBlank_of_isPackage hname c List.mem_cons_self) _
  have hgaps' : skipSomeBlank? (gap' ++ ("import".toList ++ t)) = some ("import".toList ++ t) :=
    skipSomeBlank?_gap hgap' hblank' (by decide) _
  have hstart : (c :: rest ++ path).head?.any isNameStart = true := by
    simpa using isNameStart_of_isPackage hname
  simp only [importedFrom?, hskip, after?_append, hgaps, hrun, hgaps', hstart,
    Option.bind_eq_bind, Option.bind_some, Bool.not_true, Bool.false_eq_true, if_false, ht, if_true]
  exact package?_append hname hpath

theorem statementPackages_members (hname : isPackage name = true)
    (hindent : ∀ c ∈ indent, isBlank c = true) (hgap : gap ≠ [])
    (hblank : ∀ c ∈ gap, isBlank c = true) (hpath : path = [] ∨ path.head? = some '.')
    (hdotted : ∀ c ∈ path, isDotted c = true) (hgap' : gap' ≠ [])
    (hblank' : ∀ c ∈ gap', isBlank c = true) (ht : wordEnds t = true) :
    statementPackages (indent ++ ("from".toList ++
      (gap ++ (name ++ path ++ (gap' ++ ("import".toList ++ t)))))) = [name] := by
  have hnot : imported? (indent ++ ("from".toList ++
      (gap ++ (name ++ path ++ (gap' ++ ("import".toList ++ t)))))) = none := by
    rw [imported?, skipBlank_append hindent]
    rfl
  rw [statementPackages, hnot,
    importedFrom?_eq hname hindent hgap hblank hpath hdotted hgap' hblank' ht]
  rfl

theorem mem_statementPackages_members (hname : isPackage name = true)
    (hindent : ∀ c ∈ indent, isGap c = true) (hgap : gap ≠ [])
    (hblank : ∀ c ∈ gap, isGap c = true) (hpath : path = [] ∨ path.head? = some '.')
    (hdotted : ∀ c ∈ path, isDotted c = true) (hgap' : gap' ≠ [])
    (hblank' : ∀ c ∈ gap', isGap c = true) (ht : wordEnds t = true) :
    name ∈ statementPackages
      (indent ++ ("from".toList ++ gap ++ name ++ path ++ gap' ++ "import".toList) ++ t) := by
  have hstatement : indent ++ ("from".toList ++ gap ++ name ++ path ++ gap' ++ "import".toList) ++
      t = indent ++ ("from".toList ++
        (gap ++ (name ++ path ++ (gap' ++ ("import".toList ++ t))))) := by
    simp
  rw [hstatement, statementPackages_members hname (fun c hc => isBlank_of_isGap (hindent c hc)) hgap
    (fun c hc => isBlank_of_isGap (hblank c hc)) hpath hdotted hgap'
    (fun c hc => isBlank_of_isGap (hblank' c hc)) ht]
  exact List.mem_singleton_self name

end statements

/-- A statement shows its package on every beginning of it that goes past the name. -/
theorem Imports.split {name s : List Char} (hname : isPackage name = true) (h : Imports name s) :
    ∃ head rest, s = head ++ rest ∧ head ≠ [] ∧ (∀ c ∈ head, isPlain c = true) ∧
      ∀ indent t : List Char, (∀ c ∈ indent, isGap c = true) → t <+: rest →
        (∀ c ∈ t.head?, c ≠ '\n' ∧ c ≠ '#' ∧ c ≠ ';') →
          name ∈ statementPackages (indent ++ head ++ t) := by
  have hplain : ∀ c ∈ name, isPlain c = true :=
    fun c hc => isPlain_of_isDotted (isDotted_of_isPackage hname c hc)
  have hgaps : ∀ gap : List Char, (∀ c ∈ gap, isGap c = true) → ∀ c ∈ gap, isPlain c = true :=
    fun gap h c hc => isPlain_of_isGap (h c hc)
  have hwords : ∀ c ∈ "import".toList ++ "from".toList, isPlain c = true :=
    List.all_eq_true.mp (by decide)
  cases h with
  | @module gap names lead rest hgap hblank hnames hlist hlead hrest =>
    refine ⟨"import".toList ++ gap ++ names ++ lead ++ name, rest, rfl, by simp, ?_, ?_⟩
    · simp only [List.mem_append] at hwords ⊢
      rintro c ((((hc | hc) | hc) | hc) | hc)
      · exact hwords c (Or.inl hc)
      · exact hgaps gap hblank c hc
      · exact hlist c hc
      · exact hgaps lead hlead c hc
      · exact hplain c hc
    · intro indent t hindent ht hhead
      refine mem_statementPackages_module hname hindent hgap hblank hnames hlead fun c hc => ?_
      obtain ⟨hfeed, hhash, hsemicolon⟩ := hhead c hc
      obtain ⟨more, rfl⟩ := List.head?_eq_some_iff.mp (mem_head?_mono ht hc)
      obtain ((hgap | hreturn) | hdot) | hcomma :
          ((isGap c = true ∨ c = '\r') ∨ c = '.') ∨ c = ',' := by
        simpa [nameEnds, isLineEnd, hfeed, hhash, hsemicolon] using hrest
      · exact Or.inl (isBlank_of_isGap hgap)
      · exact Or.inl (by rw [hreturn]; decide)
      · exact Or.inr (Or.inl hdot)
      · exact Or.inr (Or.inr hcomma)
  | @members gap path gap' rest hgap hblank hpath hdotted hgap' hblank' hrest =>
    refine ⟨"from".toList ++ gap ++ name ++ path ++ gap' ++ "import".toList, rest, rfl, by simp,
      ?_, ?_⟩
    · simp only [List.mem_append] at hwords ⊢
      rintro c (((((hc | hc) | hc) | hc) | hc) | hc)
      · exact hwords c (Or.inr hc)
      · exact hgaps gap hblank c hc
      · exact hplain c hc
      · exact isPlain_of_isDotted (hdotted c hc)
      · exact hgaps gap' hblank' c hc
      · exact hwords c (Or.inl hc)
    · intro indent t hindent ht hhead
      refine mem_statementPackages_members hname hindent hgap hblank hpath hdotted hgap' hblank' ?_
      cases t with
      | nil => rfl
      | cons c t =>
        obtain ⟨more, rfl⟩ := List.head?_eq_some_iff.mp (mem_head?_mono ht (Option.mem_some_self c))
        exact hrest

/-! ### Sources -/

theorem unbroken_plain {m : Mode} {s : List Char} (h : ∀ c ∈ s, isPlain c = true) :
    reading.unbroken m s = true := by
  induction s generalizing m with
  | nil => rfl
  | cons c s ih =>
    obtain ⟨hc, hs⟩ := List.forall_mem_cons.mp h
    have hend := not_isLineEnd_of_isPlain hc
    have hreturn : (c != '\r') = true := by simpa using (isLineEnd_eq_false.mp hend).2
    rw [Reading.unbroken, hreturn, ih hs]
    simp [reading, hend]

/-- The last line before a statement. -/
theorem BeginsStatement.edge_line {ls : List (List Char)} {line : List Char}
    (h : BeginsStatement (unlines ls ++ line)) (hline : '\n' ∉ line) :
    line = [] ∨ line.getLast? = some ';' := by
  by_cases hnil : line = []
  · exact Or.inl hnil
  · have hlast : (unlines ls ++ line).getLast? = line.getLast? := by
      rw [List.getLast?_append, List.getLast?_eq_some_getLast hnil, Option.some_or]
    obtain hempty | hfeed | hsemicolon := h.edge
    · exact absurd (List.append_eq_nil_iff.mp hempty).2 hnil
    · exact absurd (List.mem_of_getLast? (hlast ▸ hfeed)) hline
    · exact Or.inr (hlast ▸ hsemicolon)

/-- What a statement shows however it goes on is found on its line. -/
theorem mem_pythonPackages {line statement t name : List Char}
    (hline : line = [] ∨ line.getLast? = some ';') (hno : ';' ∉ statement)
    (hname : ∀ t', t' <+: t → ';' ∉ t' → name ∈ statementPackages (statement ++ t')) :
    name ∈ pythonPackages (line ++ statement ++ t) := by
  obtain ⟨piece, after, rfl, hpiece, hafter⟩ := exists_piece ';' t
  have hstatement : ';' ∉ statement ++ piece := by
    rw [List.mem_append, not_or]
    exact ⟨hno, hpiece⟩
  have hmem := mem_splitChars hline hstatement hafter
  refine List.mem_append_left _ (List.mem_flatMap.mpr ⟨statement ++ piece, ?_, ?_⟩)
  · simpa using hmem
  · exact hname piece (List.prefix_append piece after) hpiece

/-- Every import at the beginning of a statement is found, with its line. -/
theorem mem_moduleRefs_of_imports {before indent s name : List Char}
    (hbegins : BeginsStatement before) (hindent : ∀ c ∈ indent, isGap c = true)
    (hname : isPackage name = true) (himports : Imports name s) :
    ⟨String.ofList name, before.count '\n' + 1⟩ ∈
      moduleRefs .python (withoutComments .python (before ++ indent ++ s)) := by
  obtain ⟨head, rest, rfl, hne, hplain, hfound⟩ := himports.split hname
  obtain ⟨ls, line, rfl, hls, hline⟩ := exists_unlines before
  have hcode : ∀ c ∈ indent ++ head, isPlain c = true := fun c hc =>
    (List.mem_append.mp hc).elim (fun hc => isPlain_of_isGap (hindent c hc)) (hplain c)
  have hfeed : '\n' ∉ line ++ (indent ++ head) := by
    rw [List.mem_append, not_or]
    exact ⟨hline, fun hmem => absurd (hcode _ hmem) (by decide)⟩
  have hunbroken : reading.unbroken .code (unlines ls ++ (line ++ (indent ++ head))) = true := by
    rw [← List.append_assoc]
    exact Reading.unbroken_concat hbegins.unbroken (unbroken_plain hcode)
  have hscan : reading.scan .code (unlines ls ++ (line ++ (indent ++ head))) = .code := by
    rw [← List.append_assoc, Reading.scan_append, hbegins.code, scan_plain hcode]
  rw [count_unlines_append hls hline]
  have hmem : ⟨String.ofList name, ls.length + 1⟩ ∈ moduleRefs .python
      (withoutComments .python (unlines ls ++ (line ++ (indent ++ head)) ++ rest)) := by
    refine mem_moduleRefs_of_line hls (by simp [hne]) hfeed hunbroken hscan
      fun t ht htfeed hhash => ?_
    refine mem_pythonPackages (hbegins.edge_line hline)
      (fun hmem => absurd (hcode _ hmem) (by decide)) fun t' ht' hsemicolon => ?_
    refine hfound indent t' hindent (ht'.trans ht) fun c hc => ⟨?_, ?_, ?_⟩
    · rintro rfl
      exact htfeed (ht'.subset (List.mem_of_mem_head? hc))
    · rintro rfl
      exact hhash (mem_head?_mono ht' hc)
    · rintro rfl
      exact hsemicolon (List.mem_of_mem_head? hc)
  simpa using hmem

/-- A source with an import at the beginning of a statement of a package that needs a capability is
refused by every policy that denies it. -/
theorem refuses_import {policy : Policy} {name : String} {capability : Capability}
    (hcapability : capability? .python name = some capability)
    (hdenied : policy.allows capability = false) {before indent s : List Char}
    (hbegins : BeginsStatement before) (hindent : ∀ c ∈ indent, isGap c = true)
    (himports : Imports name.toList s) :
    (refusal? policy .python (String.ofList (before ++ indent ++ s))).isSome = true := by
  have hmem :=
    mem_moduleRefs_of_imports hbegins hindent (isPackage_of_capability? hcapability) himports
  rw [String.ofList_toList, ← @String.toList_ofList (before ++ indent ++ s)] at hmem
  exact refusal?_isSome hmem (moduleRefusal?_isSome hcapability hdenied _)

/-- Strings with an escaped quote and a number sign, a tripled string over two lines, and an import
after a semicolon. -/
theorem refuses_import_os :
    (refusal? {} .python (String.ofList
      ("x = 'it\\'s # 1'\r\n\"\"\"import\n# \"\"\";".toList ++ " ".toList ++
        ("import".toList ++ " ".toList ++ "math,".toList ++ " ".toList ++ "os".toList ++
          ".path as p # path\n".toList)))).isSome = true := by
  have hos : capability? .python "os" = some .fileSystem := rfl
  have hgap : ∀ c ∈ " ".toList, isGap c = true := List.all_eq_true.mp (by decide)
  refine refuses_import hos rfl ⟨by decide +kernel, by decide +kernel, by decide +kernel⟩ hgap ?_
  exact .module (by decide) hgap (by decide) (List.all_eq_true.mp (by decide)) hgap (by decide)

/-- What hides an import: the header of a compound statement on its line, an escaped line end or a
gap within it, and before it a string that goes on in the next line, or a carriage return that ends
a comment. -/
theorem hidden_imports :
    ["try: import os\nexcept ImportError: pass\n", "import \\\n  os\n", "import os\\\n  as o\n",
      "from os . path import join\n", "x = 'a\\\n#'; import os\n",
      "# a\rx = 1; import os\n"].filterMap (refusal? {} .python) = [] := by
  decide +kernel

end Flowline.Guard.PythonText
