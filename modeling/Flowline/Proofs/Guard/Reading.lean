import Flowline.Guard.Basic
import Flowline.Proofs.Text.Lines

/-!
# Reading a source

The guard cuts the comments from each line, with a state that goes from line to line, and reads the
modules off each line of what is left. The lines stay apart and keep their numbers.

A reading of a source goes character by character over the whole text and tells code from strings
and comments. The guard goes line by line, with less to remember between the lines. It tracks a
reading as long as the source is unbroken: every carriage return is before a line feed, and the
reading meets no character at which the two part.
-/
namespace Flowline.Guard

open Text

/-! ### Lines without comments -/

/-- More code before code. -/
def keeping {σ : Type} (kept : List Char) (r : List Char × σ) : List Char × σ := (kept ++ r.1, r.2)

theorem keeping_keeping {σ : Type} (a b : List Char) (r : List Char × σ) :
    keeping a (keeping b r) = keeping (a ++ b) r := by
  simp [keeping]

section codeLines

variable {σ : Type} {step : σ → List Char → List Char × σ}

/-- The state after the lines. -/
def stateAfter (step : σ → List Char → List Char × σ) (state : σ) (lines : List (List Char)) : σ :=
  lines.foldl (fun state line => (step state line).2) state

/-- A line is taken up in the state after the lines before it. -/
theorem getElem?_codeLines (state : σ) (xs : List (List Char)) (x : List Char)
    (ys : List (List Char)) :
    (codeLines step state (xs ++ x :: ys))[xs.length]? =
      some (step (stateAfter step state xs) x).1 := by
  induction xs generalizing state with
  | nil => rfl
  | cons y xs ih => exact ih (step state y).2

/-- A step that only leaves out characters puts no line feed into a line. -/
theorem codeLines_no_feed (hstep : ∀ state line, (step state line).1 ⊆ line) {state : σ}
    {xs : List (List Char)} (h : ∀ x ∈ xs, '\n' ∉ x) :
    ∀ code ∈ codeLines step state xs, '\n' ∉ code := by
  induction xs generalizing state with
  | nil => exact List.forall_mem_nil _
  | cons x xs ih =>
    obtain ⟨hx, hxs⟩ := List.forall_mem_cons.mp h
    exact List.forall_mem_cons.mpr ⟨fun hmem => hx (hstep state x hmem), ih hxs⟩

end codeLines

/-! ### Modules of a line -/

theorem moduleRefs_unlines {language : Language} {codes : List (List Char)}
    (h : ∀ code ∈ codes, '\n' ∉ code) :
    moduleRefs language (unlines codes) = (codes.map stripReturn).zipIdx.flatMap fun p =>
      (lineModules language p.1).map fun name => ⟨String.ofList name, p.2 + 1⟩ := by
  rw [moduleRefs, lineChars_unlines h]

theorem mem_moduleRefs {language : Language} {codes : List (List Char)}
    (h : ∀ code ∈ codes, '\n' ∉ code) {i : Nat} {code : List Char} (hi : codes[i]? = some code)
    {name : List Char} (hname : name ∈ lineModules language (stripReturn code)) :
    ⟨String.ofList name, i + 1⟩ ∈ moduleRefs language (unlines codes) := by
  rw [moduleRefs_unlines h, List.mem_flatMap]
  refine ⟨(stripReturn code, i), ?_, List.mem_map_of_mem hname⟩
  rw [List.mem_zipIdx_iff_getElem?, List.getElem?_map, hi, Option.map_some]

/-! ### Refused modules -/

theorem moduleRefusal?_isSome {policy : Policy} {language : Language} {name : String}
    {capability : Capability} (hcapability : capability? language name = some capability)
    (hdenied : policy.allows capability = false) (line : Nat) :
    (moduleRefusal? policy language ⟨name, line⟩).isSome = true := by
  unfold moduleRefusal?
  split
  · rfl
  · simp [hcapability, hdenied, Option.filter]

/-- A source that shows a refused module is refused. -/
theorem refusal?_isSome {policy : Policy} {language : Language} {source : String} {r : ModuleRef}
    (hr : r ∈ moduleRefs language (withoutComments language source.toList))
    (hrefused : (moduleRefusal? policy language r).isSome = true) :
    (refusal? policy language source).isSome = true := by
  unfold refusal?
  dsimp only
  split
  · rfl
  · rw [List.findSome?_isSome_iff]
    exact ⟨r, hr, hrefused⟩

/-! ### Readings -/

def isLineEnd (c : Char) : Bool := c == '\n' || c == '\r'

theorem isLineEnd_eq_false {c : Char} : isLineEnd c = false ↔ c ≠ '\n' ∧ c ≠ '\r' := by
  simp [isLineEnd]

theorem getLast?_ne_return {s : List Char} (hs : ∀ c ∈ s, isLineEnd c = false) :
    s.getLast? ≠ some '\r' := fun h => by
  simpa [isLineEnd] using hs _ (List.mem_of_getLast? h)

structure Reading (Mode : Type) where
  next : Mode → Char → Mode
  /-- The characters at which a reading line by line takes another way. -/
  parts : Mode → Char → Bool
  /-- A carriage return before a line feed makes no difference. -/
  return_feed : ∀ m, parts m '\r' = false →
    parts m '\n' = false ∧ next (next m '\r') '\n' = next m '\n'

namespace Reading

variable {Mode : Type} (R : Reading Mode)

/-- The mode after a text. -/
def scan (m : Mode) (s : List Char) : Mode := s.foldl R.next m

@[simp] theorem scan_nil (m : Mode) : R.scan m [] = m := rfl
@[simp] theorem scan_cons (m : Mode) (c : Char) (s : List Char) :
    R.scan m (c :: s) = R.scan (R.next m c) s := rfl

theorem scan_append (m : Mode) (s t : List Char) : R.scan m (s ++ t) = R.scan (R.scan m s) t :=
  List.foldl_append

/-- A reading that comes to a mode comes to it at some character for the first time. -/
theorem exists_first {m m' : Mode} {s : List Char} (hm : m ≠ m') (h : R.scan m s = m') :
    ∃ a c b, s = a ++ c :: b ∧ R.scan m a ≠ m' ∧ R.next (R.scan m a) c = m' := by
  induction s generalizing m with
  | nil => exact absurd h hm
  | cons c s ih =>
    by_cases hnext : R.next m c = m'
    · exact ⟨[], c, s, rfl, hm, hnext⟩
    · obtain ⟨a, d, b, rfl, ha, hd⟩ := ih hnext h
      exact ⟨c :: a, d, b, rfl, ha, hd⟩

def unbroken (m : Mode) : List Char → Bool
  | [] => true
  | c :: rest =>
    (c != '\r' || rest.head? == some '\n') && !R.parts m c && unbroken (R.next m c) rest

section unbroken

variable {R} {m : Mode} {c : Char} {s t line rest : List Char}

theorem unbroken_cons (h : R.unbroken m (c :: s) = true) :
    R.parts m c = false ∧ R.unbroken (R.next m c) s = true := by
  rw [unbroken, Bool.and_eq_true, Bool.and_eq_true] at h
  exact ⟨by simpa using h.1.2, h.2⟩

theorem unbroken_append (h : R.unbroken m (s ++ t) = true) : R.unbroken (R.scan m s) t = true := by
  induction s generalizing m with
  | nil => exact h
  | cons c s ih => exact ih (unbroken_cons h).2

/-- A part without line ends at the beginning of an unbroken text is unbroken. -/
theorem unbroken_left (hs : ∀ c ∈ s, isLineEnd c = false) (h : R.unbroken m (s ++ t) = true) :
    R.unbroken m s = true := by
  induction s generalizing m with
  | nil => rfl
  | cons c s ih =>
    obtain ⟨hc, hs⟩ := List.forall_mem_cons.mp hs
    have hreturn : (c != '\r') = true := by simpa using (isLineEnd_eq_false.mp hc).2
    obtain ⟨hparts, hrest⟩ := unbroken_cons h
    rw [unbroken, hreturn, hparts, ih hs hrest]
    rfl

/-- Without line feeds there is no line end in an unbroken text. -/
theorem unbroken_no_end (hs : '\n' ∉ s) (h : R.unbroken m s = true) :
    ∀ c ∈ s, isLineEnd c = false := by
  induction s generalizing m with
  | nil => exact List.forall_mem_nil _
  | cons c s ih =>
    simp only [List.mem_cons, not_or] at hs
    refine List.forall_mem_cons.mpr ⟨isLineEnd_eq_false.mpr ⟨Ne.symm hs.1, ?_⟩,
      ih hs.2 (unbroken_cons h).2⟩
    rintro rfl
    rw [unbroken, Bool.and_eq_true, Bool.and_eq_true] at h
    have hhead : s.head? = some '\n' := by simpa using h.1.1
    exact hs.2 (List.mem_of_mem_head? hhead)

/-- An unbroken text goes on with one that is unbroken in the mode after it. -/
theorem unbroken_concat (h : R.unbroken m s = true) (ht : R.unbroken (R.scan m s) t = true) :
    R.unbroken m (s ++ t) = true := by
  induction s generalizing m with
  | nil => exact ht
  | cons c s ih =>
    obtain ⟨-, hrest⟩ := unbroken_cons h
    rw [unbroken, Bool.and_eq_true, Bool.and_eq_true, Bool.or_eq_true] at h
    obtain ⟨⟨hreturn, hparts⟩, -⟩ := h
    have hreturn' : c != '\r' ∨ (s ++ t).head? == some '\n' := by
      refine hreturn.imp_right fun hhead => ?_
      rw [beq_iff_eq] at hhead ⊢
      rw [List.head?_append, hhead, Option.some_or]
    rw [List.cons_append, unbroken, Bool.and_eq_true, Bool.and_eq_true, Bool.or_eq_true]
    exact ⟨⟨hreturn', hparts⟩, ih hrest ht⟩

/-- A line of the guard, without a carriage return before its end, and what it is to the reading. -/
theorem unbroken_line (hline : '\n' ∉ line) (h : R.unbroken m (line ++ '\n' :: rest) = true) :
    (∀ c ∈ stripReturn line, isLineEnd c = false) ∧ R.unbroken m (stripReturn line) = true ∧
      R.parts (R.scan m (stripReturn line)) '\n' = false ∧
      R.next (R.scan m (stripReturn line)) '\n' = R.next (R.scan m line) '\n' := by
  induction line generalizing m with
  | nil => exact ⟨List.forall_mem_nil _, rfl, (unbroken_cons h).1, rfl⟩
  | cons c line ih =>
    simp only [List.mem_cons, not_or] at hline
    obtain ⟨hparts, hrest⟩ := unbroken_cons h
    by_cases hc : c = '\r'
    · subst hc
      cases line with
      | nil =>
        obtain ⟨hfeed, hnext⟩ := R.return_feed m hparts
        exact ⟨List.forall_mem_nil _, rfl, hfeed, hnext.symm⟩
      | cons d line => simp_all [unbroken]
    · obtain ⟨hends, hunbroken, hlast⟩ := ih hline.2 hrest
      have hreturn : (c != '\r') = true := by simpa using hc
      rw [stripReturn_cons hc]
      refine ⟨List.forall_mem_cons.mpr ⟨isLineEnd_eq_false.mpr ⟨Ne.symm hline.1, hc⟩, hends⟩,
        ?_, hlast⟩
      rw [unbroken, hreturn, hparts, hunbroken]
      rfl

end unbroken

/-! ### Line by line -/

/-- Reading line by line, in states that the modes have, takes each line up where the reading is. -/
structure Tracks {σ : Type} (step : σ → List Char → List Char × σ) (state : Mode → σ)
    (starts : Mode → Bool) : Prop where
  line_state : ∀ {m line}, starts m = true → (∀ c ∈ line, isLineEnd c = false) →
    R.unbroken m line = true → R.parts (R.scan m line) '\n' = false →
      (step (state m) line).2 = state (R.next (R.scan m line) '\n')
  starts_next : ∀ {m}, R.parts m '\n' = false → starts (R.next m '\n') = true

namespace Tracks

variable {R} {σ : Type} {step : σ → List Char → List Char × σ} {state : Mode → σ}
  {starts : Mode → Bool} {m : Mode} {ls : List (List Char)}

theorem stateAfter_eq (h : R.Tracks step state starts) (hls : ∀ l ∈ ls, '\n' ∉ l)
    (hm : starts m = true) {rest : List Char}
    (hunbroken : R.unbroken m (unlines ls ++ rest) = true) :
    stateAfter step (state m) (ls.map stripReturn) = state (R.scan m (unlines ls)) ∧
      starts (R.scan m (unlines ls)) = true := by
  induction ls generalizing m with
  | nil => exact ⟨rfl, hm⟩
  | cons l ls ih =>
    obtain ⟨hl, hls⟩ := List.forall_mem_cons.mp hls
    rw [unlines_cons, List.append_assoc, List.cons_append] at hunbroken
    obtain ⟨hends, hline, hparts, hnext⟩ := unbroken_line hl hunbroken
    have hstate := h.line_state hm hends hline hparts
    rw [hnext] at hstate
    have hrest := (unbroken_cons (unbroken_append hunbroken)).2
    rw [unlines_cons, scan_append, scan_cons]
    simpa [stateAfter, hstate] using ih hls (hnext ▸ h.starts_next hparts) hrest

/-- The guard's line with a place of an unbroken source: what is before the place in its line, and
something of what follows. -/
theorem getElem?_codeLines (h : R.Tracks step state starts) (hls : ∀ l ∈ ls, '\n' ∉ l)
    (hm : starts m = true) {s : List Char} (hne : s ≠ []) (hs : '\n' ∉ s)
    (hunbroken : R.unbroken m (unlines ls ++ s) = true) (t : List Char) :
    ∃ t', t' <+: t ∧ '\n' ∉ t' ∧
      (codeLines step (state m) (lineChars (unlines ls ++ s ++ t)))[ls.length]? =
        some (step (state (R.scan m (unlines ls))) (s ++ t')).1 := by
  have hends := unbroken_no_end hs (unbroken_append hunbroken)
  obtain ⟨t', more, ht', hfeed, hlines⟩ := lineChars_append hne hs (getLast?_ne_return hends) t
  have hnth := @Guard.getElem?_codeLines σ step (state m) (ls.map stripReturn) (s ++ t') more
  rw [(h.stateAfter_eq hls hm hunbroken).1, List.length_map] at hnth
  refine ⟨t', ht', hfeed, ?_⟩
  rw [List.append_assoc, lineChars_unlines_append hls, hlines]
  exact hnth

end Tracks

end Reading

end Flowline.Guard
