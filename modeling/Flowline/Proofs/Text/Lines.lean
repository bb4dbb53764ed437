import Flowline.Text.Blank

/-! Splitting a text at a separator, and into its lines. -/
namespace Flowline.Text

theorem mem_head?_mono {s t : List Char} (h : s <+: t) {c : Char} (hc : c ∈ s.head?) :
    c ∈ t.head? := by
  obtain ⟨u, rfl⟩ := h
  rw [List.head?_append, hc, Option.some_or]
  exact rfl

/-! ### Pieces between a separator -/

theorem splitChars_of_not_mem {sep : Char} {s : List Char} (h : sep ∉ s) :
    splitChars sep s = [s] := by
  induction s with
  | nil => rfl
  | cons c rest ih =>
    have hc : c ≠ sep := fun hc => h (hc ▸ List.mem_cons_self)
    rw [splitChars, if_neg hc, ih fun hrest => h (List.mem_cons_of_mem c hrest)]

theorem splitChars_append_cons {sep : Char} {s : List Char} (h : sep ∉ s) (rest : List Char) :
    splitChars sep (s ++ sep :: rest) = s :: splitChars sep rest := by
  induction s with
  | nil => rw [List.nil_append, splitChars, if_pos rfl]
  | cons c s ih =>
    have hc : c ≠ sep := fun hc => h (hc ▸ List.mem_cons_self)
    rw [List.cons_append, splitChars, if_neg hc, ih fun hs => h (List.mem_cons_of_mem c hs)]

theorem splitChars_ne_nil (sep : Char) (s : List Char) : splitChars sep s ≠ [] := by
  by_cases h : sep ∈ s
  · obtain ⟨a, b, rfl, ha⟩ := List.eq_append_cons_of_mem h
    rw [splitChars_append_cons ha]
    exact List.cons_ne_nil _ _
  · rw [splitChars_of_not_mem h]
    exact List.cons_ne_nil _ _

/-- A separator cuts a text, whatever stands on its sides. -/
theorem splitChars_append_sep (sep : Char) (s t : List Char) :
    splitChars sep (s ++ sep :: t) = splitChars sep s ++ splitChars sep t := by
  induction s with
  | nil => exact splitChars_append_cons List.not_mem_nil t
  | cons c s ih =>
    rw [List.cons_append, splitChars, splitChars, ih]
    by_cases hc : c = sep
    · rw [if_pos hc, if_pos hc]
      rfl
    · rw [if_neg hc, if_neg hc]
      obtain ⟨piece, pieces, hpieces⟩ := List.exists_cons_of_ne_nil (splitChars_ne_nil sep s)
      rw [hpieces]
      rfl

theorem splitChars_intercalate {sep : Char} {pieces : List (List Char)} (hne : pieces ≠ [])
    (h : ∀ piece ∈ pieces, sep ∉ piece) : splitChars sep ([sep].intercalate pieces) = pieces := by
  induction pieces with
  | nil => exact absurd rfl hne
  | cons piece pieces ih =>
    obtain ⟨hpiece, hrest⟩ := List.forall_mem_cons.mp h
    cases pieces with
    | nil => rw [List.intercalate_singleton, splitChars_of_not_mem hpiece]
    | cons next pieces =>
      rw [List.intercalate_cons_cons, List.append_assoc, List.singleton_append,
        splitChars_append_cons hpiece, ih (List.cons_ne_nil _ _) hrest]

theorem not_mem_of_mem_splitChars {sep : Char} {s piece : List Char}
    (h : piece ∈ splitChars sep s) : sep ∉ piece := by
  induction hn : s.length using Nat.strongRecOn generalizing s with
  | ind n ih =>
    by_cases hsep : sep ∈ s
    · obtain ⟨a, b, rfl, ha⟩ := List.eq_append_cons_of_mem hsep
      rw [splitChars_append_cons ha, List.mem_cons] at h
      obtain rfl | h := h
      · exact ha
      · exact ih b.length (by simp at hn; omega) h rfl
    · rw [splitChars_of_not_mem hsep, List.mem_singleton] at h
      exact h ▸ hsep

/-- What stands between two separators, or at an end of the text, is a piece. -/
theorem mem_splitChars {sep : Char} {before piece after : List Char}
    (hbefore : before = [] ∨ before.getLast? = some sep) (hpiece : sep ∉ piece)
    (hafter : after = [] ∨ after.head? = some sep) :
    piece ∈ splitChars sep (before ++ piece ++ after) := by
  induction hn : before.length using Nat.strongRecOn generalizing before with
  | ind n ih =>
    by_cases h : sep ∈ before
    · obtain ⟨a, b, rfl, ha⟩ := List.eq_append_cons_of_mem h
      have hb : b = [] ∨ b.getLast? = some sep := by
        cases b with
        | nil => exact Or.inl rfl
        | cons c b => exact Or.inr (by simpa using hbefore)
      have hmem := ih b.length (by simp at hn; omega) hb rfl
      rw [List.append_assoc, List.append_assoc, List.cons_append, splitChars_append_cons ha]
      exact List.mem_cons_of_mem a (List.append_assoc .. ▸ hmem)
    · have hnil : before = [] := hbefore.resolve_right fun hlast => h (List.mem_of_getLast? hlast)
      subst hnil
      rw [List.nil_append]
      obtain rfl | hhead := hafter
      · rw [List.append_nil, splitChars_of_not_mem hpiece]
        exact List.mem_singleton_self piece
      · obtain ⟨c, after, rfl⟩ : ∃ c rest, after = c :: rest := by
          cases after with
          | nil => cases hhead
          | cons c rest => exact ⟨c, rest, rfl⟩
        cases hhead
        rw [splitChars_append_cons hpiece]
        exact List.mem_cons_self

/-- The first piece of a text, and what is left of it. -/
theorem exists_piece (sep : Char) (s : List Char) :
    ∃ piece after, s = piece ++ after ∧ sep ∉ piece ∧ (after = [] ∨ after.head? = some sep) := by
  by_cases h : sep ∈ s
  · obtain ⟨a, b, rfl, ha⟩ := List.eq_append_cons_of_mem h
    exact ⟨a, sep :: b, rfl, ha, Or.inr rfl⟩
  · exact ⟨s, [], (List.append_nil s).symm, h, Or.inl rfl⟩

/-! ### Lines -/

/-- Lines with a line feed after each. -/
def unlines (ls : List (List Char)) : List Char := ls.flatMap (· ++ ['\n'])

theorem unlines_cons (l : List Char) (ls : List (List Char)) :
    unlines (l :: ls) = l ++ '\n' :: unlines ls := by
  simp [unlines]

/-- Every text is made of whole lines and a line that has no end. -/
theorem exists_unlines (s : List Char) :
    ∃ ls rest, s = unlines ls ++ rest ∧ (∀ l ∈ ls, '\n' ∉ l) ∧ '\n' ∉ rest := by
  induction s with
  | nil => exact ⟨[], [], rfl, List.forall_mem_nil _, List.not_mem_nil⟩
  | cons c s ih =>
    obtain ⟨ls, rest, rfl, hls, hrest⟩ := ih
    by_cases hc : c = '\n'
    · subst hc
      exact ⟨[] :: ls, rest, by rw [unlines_cons]; rfl,
        List.forall_mem_cons.mpr ⟨List.not_mem_nil, hls⟩, hrest⟩
    · cases ls with
      | nil =>
        exact ⟨[], c :: rest, rfl, hls, List.not_mem_cons_of_ne_of_not_mem (Ne.symm hc) hrest⟩
      | cons l ls =>
        obtain ⟨hl, hls⟩ := List.forall_mem_cons.mp hls
        exact ⟨(c :: l) :: ls, rest, by rw [unlines_cons, unlines_cons]; rfl,
          List.forall_mem_cons.mpr ⟨List.not_mem_cons_of_ne_of_not_mem (Ne.symm hc) hl, hls⟩, hrest⟩

theorem count_unlines_append {ls : List (List Char)} (hls : ∀ l ∈ ls, '\n' ∉ l) {rest : List Char}
    (hrest : '\n' ∉ rest) : (unlines ls ++ rest).count '\n' = ls.length := by
  induction ls with
  | nil => exact List.count_eq_zero.mpr hrest
  | cons l ls ih =>
    obtain ⟨hl, hls⟩ := List.forall_mem_cons.mp hls
    rw [unlines_cons, List.append_assoc, List.cons_append, List.count_append, List.count_cons,
      ih hls, List.count_eq_zero.mpr hl]
    simp

/-- A line without the carriage return before its end. -/
def stripReturn (line : List Char) : List Char :=
  if line.getLast? = some '\r' then line.dropLast else line

theorem isPrefix_stripReturn (line : List Char) : stripReturn line <+: line := by
  unfold stripReturn
  split
  · exact List.dropLast_prefix line
  · exact List.prefix_refl line

theorem stripReturn_cons {c : Char} (hc : c ≠ '\r') (line : List Char) :
    stripReturn (c :: line) = c :: stripReturn line := by
  cases line with
  | nil => simp [stripReturn, hc]
  | cons d line => simp only [stripReturn, List.getLast?_cons_cons]; split <;> rfl

/-- Of a line that goes on after `s`, only what comes after `s` is cut. -/
theorem stripReturn_append {s : List Char} (hs : s.getLast? ≠ some '\r') (t : List Char) :
    ∃ t', t' <+: t ∧ stripReturn (s ++ t) = s ++ t' := by
  cases t with
  | nil => exact ⟨[], List.prefix_refl [], by rw [List.append_nil, stripReturn, if_neg hs]⟩
  | cons c t =>
    unfold stripReturn
    split
    · exact ⟨_, List.dropLast_prefix _, List.dropLast_append_of_ne_nil (List.cons_ne_nil c t)⟩
    · exact ⟨_, List.prefix_refl _, rfl⟩

@[simp] theorem lineChars_nil : lineChars [] = [] := rfl

theorem lineChars_of_not_mem {line : List Char} (h : '\n' ∉ line) (hne : line ≠ []) :
    lineChars line = [line] := by
  have hlast : line.getLast? ≠ some '\n' := fun hl => h (List.mem_of_getLast? hl)
  simp [lineChars, splitChars_of_not_mem h, hne, hlast]

theorem lineChars_append_cons {line : List Char} (h : '\n' ∉ line) (rest : List Char) :
    lineChars (line ++ '\n' :: rest) = stripReturn line :: lineChars rest := by
  cases rest with
  | nil => simp [lineChars, splitChars_append_cons h, splitChars, stripReturn]
  | cons c rest =>
    have hlast : (line ++ '\n' :: c :: rest).getLast? = (c :: rest).getLast? := by
      rw [← List.singleton_append, ← List.append_assoc, List.getLast?_append,
        List.getLast?_eq_some_getLast (List.cons_ne_nil c rest), Option.some_or]
    -- the pieces of the rest that count as lines
    have hpieces : ∀ ps : List (List Char), ps ≠ [] → ps ≠ [[]] →
        (if (line :: ps).getLast? = some [] then (line :: ps).dropLast else line :: ps) =
          line :: (if ps.getLast? = some [] then ps.dropLast else ps) ∧
        0 < (if ps.getLast? = some [] then ps.dropLast else ps).length := by
      intro ps hne hsingle
      match ps, hne, hsingle with
      | [p], _, hsingle =>
        have hp : p ≠ [] := fun hp => hsingle (hp ▸ rfl)
        simp [hp]
      | p :: q :: ps, _, _ =>
        rw [List.getLast?_cons_cons]
        split <;> simp
    have hne : splitChars '\n' (c :: rest) ≠ [[]] := by
      rw [splitChars]
      split
      · simp [splitChars_ne_nil]
      · split <;> simp
    obtain ⟨heq, hpos⟩ := hpieces _ (splitChars_ne_nil '\n' (c :: rest)) hne
    simp only [lineChars, splitChars_append_cons h, heq, hlast, List.mapIdx_cons]
    refine List.cons_eq_cons.mpr ⟨?_, congrArg (List.mapIdx · _) ?_⟩
    · simp [stripReturn, hpos]
    · funext i piece
      simp [Nat.lt_sub_iff_add_lt]

/-- The lines of a text are its whole lines and what has no end, if that is not empty. -/
theorem lineChars_unlines_append {ls : List (List Char)} (h : ∀ l ∈ ls, '\n' ∉ l)
    (rest : List Char) : lineChars (unlines ls ++ rest) = ls.map stripReturn ++ lineChars rest := by
  induction ls with
  | nil => rfl
  | cons l ls ih =>
    obtain ⟨hl, hls⟩ := List.forall_mem_cons.mp h
    rw [unlines_cons, List.append_assoc, List.cons_append, lineChars_append_cons hl, ih hls]
    rfl

theorem lineChars_unlines {ls : List (List Char)} (h : ∀ l ∈ ls, '\n' ∉ l) :
    lineChars (unlines ls) = ls.map stripReturn := by
  simpa using lineChars_unlines_append h []

/-- The first line of a text that begins with `s` begins with `s`. -/
theorem lineChars_append {s : List Char} (hne : s ≠ []) (hfeed : '\n' ∉ s)
    (hreturn : s.getLast? ≠ some '\r') (t : List Char) :
    ∃ t' more, t' <+: t ∧ '\n' ∉ t' ∧ lineChars (s ++ t) = (s ++ t') :: more := by
  by_cases h : '\n' ∈ t
  · obtain ⟨a, b, rfl, ha⟩ := List.eq_append_cons_of_mem h
    obtain ⟨t', ht', hstrip⟩ := stripReturn_append hreturn a
    refine ⟨t', lineChars b, ht'.trans (List.prefix_append a _),
      fun hmem => ha (ht'.subset hmem), ?_⟩
    rw [← List.append_assoc, lineChars_append_cons (by simp [hfeed, ha]), hstrip]
  · exact ⟨t, [], List.prefix_refl t, h, lineChars_of_not_mem (by simp [hfeed, h]) (by simp [hne])⟩

theorem not_mem_of_mem_lineChars {s line : List Char} (h : line ∈ lineChars s) : '\n' ∉ line := by
  obtain ⟨ls, rest, rfl, hls, hrest⟩ := exists_unlines s
  rw [lineChars_unlines_append hls, List.mem_append, List.mem_map] at h
  obtain ⟨l, hl, rfl⟩ | h := h
  · exact fun hmem => hls l hl ((isPrefix_stripReturn l).subset hmem)
  · by_cases hne : rest = []
    · subst hne
      cases h
    · rw [lineChars_of_not_mem hrest hne, List.mem_singleton] at h
      exact h ▸ hrest

end Flowline.Text
