import Flowline.Proofs.Guard.ScriptText
import Flowline.Proofs.Text.Scan

/-!
# Loads of JavaScript

A call of `require` or `import` on a literal that stands on one line shows the guard its module. A
call that goes on in the next line is taken for a call on a literal all the same, and loads its
module unseen.
-/
namespace Flowline.Guard.ScriptText

open Text

/-- A specifier that a literal can hold as it is: not empty, without quotes and escapes, on one
line, and not to be taken for the end of a call. -/
structure IsSpecifier (specifier : List Char) : Prop where
  ne_nil : specifier ≠ []
  plain : ∀ c ∈ specifier, isScriptQuote c = false ∧ c ≠ '\\' ∧ isLineEnd c = false
  inner : (skipBlank specifier).head? ≠ some ')'

/-- White space within a line. -/
def isGap (c : Char) : Bool := isBlank c && !isLineEnd c

/-- A call on a literal, on one line: `require ( "module" )`. -/
inductive Loads (specifier : List Char) : List Char → Prop
  | call {word gap gap' gap'' : List Char} {q : Quote}
      (hword : word = "require".toList ∨ word = "import".toList) (hgap : ∀ c ∈ gap, isGap c = true)
      (hgap' : ∀ c ∈ gap', isGap c = true) (hgap'' : ∀ c ∈ gap'', isGap c = true) :
      Loads specifier
        (word ++ gap ++ '(' :: gap' ++ q.char :: specifier ++ q.char :: gap'' ++ [')'])

/-! ### What the guard keeps -/

/-- Nothing that begins or ends a string, a comment or a line. -/
def isPlain (c : Char) : Bool := !(isLineEnd c || isScriptQuote c || c == '/' || c == '*')

theorem isPlain_of_isGap {c : Char} (h : isGap c = true) : isPlain c = true := by
  rw [isGap, Bool.and_eq_true] at h
  have hne : ∀ d, isBlank d = false → c ≠ d := by
    rintro d hd rfl
    rw [hd] at h
    cases h.1
  have hend : isLineEnd c = false := by simpa using h.2
  simp [isPlain, isScriptQuote, isQuote, hend, hne '\'' (by decide), hne '"' (by decide),
    hne '\x60' (by decide), hne '/' (by decide), hne '*' (by decide)]

theorem isBlank_of_isGap {c : Char} (h : isGap c = true) : isBlank c = true :=
  (Bool.and_eq_true_iff.mp h).1

theorem nextInCode_of_isPlain {c : Char} (h : isPlain c = true) : nextInCode c = .code := by
  simp only [isPlain, isScriptQuote, isQuote, Bool.not_eq_true', Bool.or_eq_false_iff,
    beq_eq_false_iff_ne] at h
  simp [nextInCode, Quote.char, h]

theorem not_isLineEnd_of_isPlain {c : Char} (h : isPlain c = true) : isLineEnd c = false := by
  simp only [isPlain, Bool.not_eq_true', Bool.or_eq_false_iff] at h
  exact h.1.1.1

theorem passes_plain {s : List Char} (h : ∀ c ∈ s, isPlain c = true) : Passes .code s .code :=
  .all rfl fun c hc => ⟨not_isLineEnd_of_isPlain (h c hc), nextInCode_of_isPlain (h c hc)⟩

/-- A token after a slash tells that the slash is a division. -/
theorem passes_token {m : Mode} (hm : m = .code ∨ m = .slash) {s : List Char} (hne : s ≠ [])
    (h : ∀ c ∈ s, isPlain c = true) : Passes m s .code := by
  obtain rfl | rfl := hm
  · exact passes_plain h
  · obtain ⟨c, s, rfl⟩ := List.exists_cons_of_ne_nil hne
    obtain ⟨hc, hs⟩ := List.forall_mem_cons.mp h
    have hnext : next .slash c = .code := by
      have hslash : c ≠ '/' ∧ c ≠ '*' := by
        simp only [isPlain, Bool.not_eq_true', Bool.or_eq_false_iff, beq_eq_false_iff_ne] at hc
        exact ⟨hc.1.2, hc.2⟩
      rw [next, if_neg hslash.1, if_neg hslash.2, nextInCode_of_isPlain hc]
    have hfirst : Passes .slash [c] (next .slash c) :=
      .next (not_isLineEnd_of_isPlain hc) rfl (hnext ▸ rfl)
    rw [hnext] at hfirst
    exact hfirst.trans (passes_plain hs)

theorem passes_literal (q : Quote) {specifier : List Char} (h : IsSpecifier specifier) :
    Passes .code (q.char :: specifier ++ [q.char]) .code := by
  have hopen : Passes .code [q.char] (.text q) := by
    cases q <;> exact .next rfl rfl rfl
  have hclose : Passes (.text q) [q.char] .code := by
    cases q <;> exact .next rfl rfl rfl
  have hinside : Passes (.text q) specifier (.text q) := by
    refine .all rfl fun c hc => ?_
    obtain ⟨hquote, hbackslash, hend⟩ := h.plain c hc
    have hne : c ≠ q.char := by
      rintro rfl
      rw [q.isScriptQuote_char] at hquote
      cases hquote
    exact ⟨hend, by simp [next, nextInText, hbackslash, hne, hend]⟩
  exact (hopen.trans hinside).trans hclose

/-- Before its literal a call is plain. -/
theorem plain_of_opening {word gap gap' : List Char}
    (hword : word = "require".toList ∨ word = "import".toList) (hgap : ∀ c ∈ gap, isGap c = true)
    (hgap' : ∀ c ∈ gap', isGap c = true) : ∀ c ∈ word ++ gap ++ '(' :: gap', isPlain c = true := by
  have hletters : ∀ c ∈ word, isPlain c = true := by
    obtain rfl | rfl := hword <;> exact List.all_eq_true.mp (by decide)
  intro c hc
  rw [List.mem_append, List.mem_append, List.mem_cons] at hc
  obtain (hc | hc) | rfl | hc := hc
  · exact hletters c hc
  · exact isPlain_of_isGap (hgap c hc)
  · decide
  · exact isPlain_of_isGap (hgap' c hc)

theorem Loads.passes {specifier s : List Char} (hspecifier : IsSpecifier specifier)
    (h : Loads specifier s) {m : Mode} (hm : m = .code ∨ m = .slash) : Passes m s .code := by
  obtain @⟨word, gap, gap', gap'', q, hword, hgap, hgap', hgap''⟩ := h
  have hopening := passes_token hm (by simp) (plain_of_opening hword hgap hgap')
  have hclosing : ∀ c ∈ gap'' ++ [')'], isPlain c = true := by
    intro c hc
    rw [List.mem_append, List.mem_singleton] at hc
    obtain hc | rfl := hc
    · exact isPlain_of_isGap (hgap'' c hc)
    · decide
  simpa using (hopening.trans (passes_literal q hspecifier)).trans (passes_plain hclosing)

/-! ### What the guard finds -/

theorem wordAfter {word : List Char} (hword : word = "require".toList ∨ word = "import".toList)
    (s : List Char) : ((after? "require".toList (word ++ s)).orElse fun _ =>
      after? "import".toList (word ++ s)) = some s := by
  obtain rfl | rfl := hword
  · rw [after?_append]
    rfl
  · rw [after?_append]
    rfl

theorem Loads.loadCall? {specifier s : List Char} (hspecifier : IsSpecifier specifier)
    (h : Loads specifier s) {before : Option Char} (hbefore : before.any isWord = false)
    (t : List Char) : loadCall? before (s ++ t) = some (specifier, t) := by
  obtain @⟨word, gap, gap', gap'', q, hword, hgap, hgap', hgap''⟩ := h
  have hskip : ∀ {w : List Char}, (∀ c ∈ w, isGap c = true) → ∀ {c : Char}, isBlank c = false →
      ∀ r, skipBlank (w ++ c :: r) = c :: r := fun hw c hc r => by
    rw [skipBlank_append fun d hd => isBlank_of_isGap (hw d hd), skipBlank_cons hc]
  have hquote : isBlank q.char = false := by cases q <;> decide
  have hrun : some? (fun c => !isScriptQuote c) (specifier ++ q.char :: (gap'' ++ ')' :: t)) =
      some (specifier, q.char :: (gap'' ++ ')' :: t)) :=
    some?_run hspecifier.ne_nil (fun c hc => by simp [(hspecifier.plain c hc).1])
      (by simp [q.isScriptQuote_char])
  have htext : word ++ gap ++ '(' :: gap' ++ q.char :: specifier ++ q.char :: gap'' ++ [')'] ++ t =
      word ++ (gap ++ '(' :: (gap' ++ q.char :: (specifier ++ q.char :: (gap'' ++ ')' :: t)))) := by
    simp
  unfold Guard.loadCall?
  rw [htext, wordAfter hword]
  simp only [hbefore, hskip hgap (show isBlank '(' = false by decide), hskip hgap' hquote, hrun,
    hskip hgap'' (show isBlank ')' = false by decide), oneOf?, q.isScriptQuote_char,
    Option.bind_eq_bind, Option.bind_some, beq_self_eq_true, if_true]
  rfl

/-- The steps of a match. -/
theorem of_loadCall? {before : Option Char} {s name after : List Char}
    (h : Guard.loadCall? before s = some (name, after)) :
    ∃ r₁ r₂ r₃ r₄ r₅,
      ((after? "require".toList s).orElse fun _ => after? "import".toList s) = some r₁ ∧
      oneOf? (· == '(') (skipBlank r₁) = some r₂ ∧ oneOf? isScriptQuote (skipBlank r₂) = some r₃ ∧
      some? (fun c => !isScriptQuote c) r₃ = some (name, r₄) ∧
      oneOf? isScriptQuote r₄ = some r₅ ∧ oneOf? (· == ')') (skipBlank r₅) = some after := by
  unfold Guard.loadCall? at h
  simp only [Option.bind_eq_bind] at h
  split at h
  · cases h
  · simp only [Option.bind_eq_some_iff] at h
    obtain ⟨r₁, h₁, r₂, h₂, r₃, h₃, ⟨run, r₄⟩, h₄, r₅, h₅, r₆, h₆, hname⟩ := h
    obtain ⟨rfl, rfl⟩ : run = name ∧ r₆ = after := by simpa using hname
    exact ⟨r₁, r₂, r₃, r₄, r₅, h₁, h₂, h₃, h₄, h₅, h₆⟩

theorem wordAfter_of_append {u t r : List Char} (hne : u ≠ [])
    (hu : ∀ c ∈ u.getLast?, isWord c = false)
    (h : ((after? "require".toList (u ++ t)).orElse fun _ =>
      after? "import".toList (u ++ t)) = some r) :
    ∃ u', r = u' ++ t := by
  cases hrequire : after? "require".toList (u ++ t) with
  | some r' =>
    rw [hrequire] at h
    cases h
    exact after?_of_append (List.all_eq_true.mp (by decide)) hu hne hrequire
  | none =>
    rw [hrequire] at h
    exact after?_of_append (List.all_eq_true.mp (by decide)) hu hne h

/-- Neither white space nor a part of a call but its word. -/
theorem Loads.head {specifier s : List Char} (h : Loads specifier s) (t : List Char) :
    ∃ c rest, s ++ t = c :: rest ∧
      isBlank c = false ∧ c ≠ '(' ∧ c ≠ ')' ∧ isScriptQuote c = false := by
  obtain @⟨word, gap, gap', gap'', q, hword, -, -, -⟩ := h
  obtain rfl | rfl := hword
  · exact ⟨'r', _, rfl, by decide⟩
  · exact ⟨'i', _, rfl, by decide⟩

/-- No call ends within the literal of a call. -/
theorem Loads.literal {specifier s : List Char} (hspecifier : IsSpecifier specifier)
    (h : Loads specifier s) (t : List Char) {r r' : List Char}
    (hquote : oneOf? isScriptQuote ((s ++ t).dropWhile fun c => !isScriptQuote c) = some r)
    (hend : oneOf? (· == ')') (skipBlank r) = some r') : False := by
  obtain @⟨word, gap, gap', gap'', q, hword, hgap, hgap', -⟩ := h
  have hdrop : (word ++ gap ++ '(' :: gap' ++ q.char :: specifier ++ q.char :: gap'' ++ [')'] ++
      t).dropWhile (fun c => !isScriptQuote c) =
        q.char :: (specifier ++ q.char :: (gap'' ++ [')'] ++ t)) := by
    have hopening : ∀ c ∈ word ++ gap ++ '(' :: gap', (!isScriptQuote c) = true := fun c hc => by
      have hplain := plain_of_opening hword hgap hgap' c hc
      simp only [isPlain, Bool.not_eq_true', Bool.or_eq_false_iff] at hplain
      simpa using hplain.1.1.2
    have hhead : (q.char :: (specifier ++ q.char :: (gap'' ++ [')'] ++ t))).head?.any
        (fun c => !isScriptQuote c) = false := by
      simp [q.isScriptQuote_char]
    simpa using dropWhile_run hopening hhead
  rw [hdrop, oneOf?, if_pos q.isScriptQuote_char] at hquote
  cases hquote
  have hquote : isBlank q.char = false ∧ q.char ≠ ')' := by cases q <;> decide
  rw [skipBlank_append_left (by simp [hquote.1])] at hend
  cases hinner : skipBlank specifier with
  | nil => simp [hinner, oneOf?, hquote.2] at hend
  | cons c rest =>
    have hc : c ≠ ')' := by simpa [hinner] using hspecifier.inner
    simp [hinner, oneOf?, hc] at hend

/-- A match that begins before a call ends before it: it would have to take the quote that begins
the literal of the call for the end of its own, and the inside of that literal for the end of its
call. -/
theorem Loads.apart {specifier s : List Char} (hspecifier : IsSpecifier specifier)
    (h : Loads specifier s) (t : List Char) {before : Option Char} {u name after : List Char}
    (hne : u ≠ []) (hu : ∀ c ∈ u.getLast?, isWord c = false)
    (hmatch : Guard.loadCall? before (u ++ (s ++ t)) = some (name, after)) :
    ∃ u', after = u' ++ (s ++ t) := by
  obtain ⟨r₁, r₂, r₃, r₄, r₅, h₁, h₂, h₃, h₄, h₅, h₆⟩ := of_loadCall? hmatch
  obtain ⟨c, rest, hst, hblank, hopen, hclose, hquote⟩ := h.head t
  have hpass : ∀ {p : Char → Bool}, p c = false → ∀ {u r : List Char},
      oneOf? p (skipBlank (u ++ (s ++ t))) = some r → ∃ u', r = u' ++ (s ++ t) := by
    intro p hp u r hr
    rw [skipBlank_append_left (by simp [hst, hblank])] at hr
    exact oneOf?_of_append (by simp [hst, hp]) hr
  obtain ⟨u₁, rfl⟩ := wordAfter_of_append hne hu h₁
  obtain ⟨u₂, rfl⟩ := hpass (by simpa using hopen) h₂
  obtain ⟨u₃, rfl⟩ := hpass hquote h₃
  have hrun : r₄ = (u₃ ++ (s ++ t)).dropWhile fun c => !isScriptQuote c := by
    rw [some?] at h₄
    split at h₄
    · cases h₄
    · exact (Prod.mk.inj (Option.some.inj h₄)).2.symm
  rw [hrun, List.dropWhile_append] at h₅
  split at h₅
  · exact (h.literal hspecifier t h₅ h₆).elim
  · obtain ⟨u₅, rfl⟩ := oneOf?_of_append (by simp [hst, hquote]) h₅
    exact hpass (by simpa using hclose) h₆

/-! ### Sources -/

end Flowline.Guard.ScriptText
