import Mathlib.Data.List.Basic
import Flowline.Text.Scan

/-! What the parts of a pattern read from a text that begins with what they look for, the search for
matches, and texts cut at a number of bytes. -/
namespace Flowline.Text

/-! ### Classes of characters -/

/-- The code points of ranges one by one. -/
def Ranges.codes (ranges : Ranges) : List Nat :=
  ranges.flatMap fun r => List.range' r.1 (r.2 + 1 - r.1)

theorem Ranges.mem_codes_of_has {ranges : Ranges} {n : Nat} (h : ranges.has n = true) :
    n ∈ ranges.codes := by
  induction ranges with
  | nil => cases h
  | cons r ranges ih =>
    obtain ⟨lo, hi⟩ := r
    simp only [Ranges.has, Bool.and_eq_true, Bool.or_eq_true, decide_eq_true_eq] at h
    rw [codes, List.flatMap_cons, List.mem_append]
    obtain ⟨hlo, hhi | hrest⟩ := h
    · exact Or.inl (List.mem_range'_1.mpr (by omega))
    · exact Or.inr (ih hrest)

/-- No white space belongs to a word. -/
theorem isWord_of_isBlank {c : Char} (h : isBlank c = true) : isWord c = false := by
  have hall : ∀ n ∈ blankRanges.codes, wordRanges.has n = false := by decide +kernel
  exact hall _ (Ranges.mem_codes_of_has h)

/-! ### Scanning -/

theorem after?_append (pat s : List Char) : after? pat (pat ++ s) = some s := by
  induction pat with
  | nil => rfl
  | cons p pat ih => rw [List.cons_append, after?, if_pos rfl, ih]

theorem eq_append_of_after? {pat s r : List Char} (h : after? pat s = some r) : s = pat ++ r := by
  induction pat generalizing s with
  | nil => exact Option.some.inj h
  | cons p pat ih =>
    cases s with
    | nil => cases h
    | cons c s =>
      rw [after?] at h
      split at h
      · rename_i hpc
        rw [hpc, ih h, List.cons_append]
      · cases h

theorem oneOf?_eq_some {p : Char → Bool} {s r : List Char} (h : oneOf? p s = some r) :
    ∃ c, s = c :: r ∧ p c = true := by
  cases s with
  | nil => cases h
  | cons c s =>
    rw [oneOf?] at h
    split at h
    · rename_i hc
      cases h
      exact ⟨c, rfl, hc⟩
    · cases h

/-- White space and what follows it. -/
theorem exists_skipBlank (s : List Char) :
    ∃ gap, s = gap ++ skipBlank s ∧ ∀ c ∈ gap, isBlank c = true :=
  ⟨s.takeWhile isBlank, (List.takeWhile_append_dropWhile).symm, fun _ hc =>
    List.all_eq_true.mp List.all_takeWhile _ hc⟩

theorem skipBlank_append {w : List Char} (h : ∀ c ∈ w, isBlank c = true) (s : List Char) :
    skipBlank (w ++ s) = skipBlank s := by
  rw [skipBlank, List.dropWhile_append_of_pos h]
  rfl

theorem skipBlank_cons {c : Char} (h : isBlank c = false) (s : List Char) :
    skipBlank (c :: s) = c :: s := by
  simp [skipBlank, h]

theorem skipSomeBlank?_append {w : List Char} (hne : w ≠ []) (h : ∀ c ∈ w, isBlank c = true)
    (s : List Char) : skipSomeBlank? (w ++ s) = some (skipBlank s) := by
  cases w with
  | nil => exact absurd rfl hne
  | cons c w =>
    obtain ⟨hc, hw⟩ := List.forall_mem_cons.mp h
    rw [List.cons_append, skipSomeBlank?, if_pos hc, skipBlank_append hw]

theorem takeWhile_run {p : Char → Bool} {run rest : List Char} (hrun : ∀ c ∈ run, p c = true)
    (hrest : rest.head?.any p = false) : (run ++ rest).takeWhile p = run := by
  rw [List.takeWhile_append_of_pos hrun]
  cases rest with
  | nil => rw [List.takeWhile_nil, List.append_nil]
  | cons c rest => rw [List.takeWhile_cons_of_neg (by simpa using hrest), List.append_nil]

theorem dropWhile_run {p : Char → Bool} {run rest : List Char} (hrun : ∀ c ∈ run, p c = true)
    (hrest : rest.head?.any p = false) : (run ++ rest).dropWhile p = rest := by
  rw [List.dropWhile_append_of_pos hrun]
  cases rest with
  | nil => rfl
  | cons c rest => rw [List.dropWhile_cons_of_neg (by simpa using hrest)]

theorem some?_run {p : Char → Bool} {run rest : List Char} (hne : run ≠ [])
    (hrun : ∀ c ∈ run, p c = true) (hrest : rest.head?.any p = false) :
    some? p (run ++ rest) = some (run, rest) := by
  rw [some?, takeWhile_run hrun hrest, dropWhile_run hrun hrest, if_neg (by simpa using hne)]

theorem dropWhile_of_none {p : Char → Bool} {s : List Char} (h : ∀ c ∈ s, p c = false) :
    s.dropWhile p = s := by
  cases s with
  | nil => rfl
  | cons c s => rw [List.dropWhile_cons_of_neg (by simp [h c List.mem_cons_self])]

theorem trimChars_of_none {p : Char → Bool} {s : List Char} (h : ∀ c ∈ s, p c = false) :
    trimChars p s = s := by
  have hreverse : ∀ c ∈ s.reverse, p c = false := fun c hc => h c (List.mem_reverse.mp hc)
  rw [trimChars, trimEndChars, trimStartChars, dropWhile_of_none h, dropWhile_of_none hreverse,
    List.reverse_reverse]

/-! ### A text that is followed by another -/

section followed

variable {p : Char → Bool} {s t r : List Char}

/-- A word that begins before `t`, which itself begins after no word, ends before it. -/
theorem after?_of_append {pat : List Char} (hpat : ∀ c ∈ pat, isWord c = true)
    (hs : ∀ c ∈ s.getLast?, isWord c = false) (hne : s ≠ []) (h : after? pat (s ++ t) = some r) :
    ∃ s', r = s' ++ t := by
  induction pat generalizing s with
  | nil => exact ⟨s, (Option.some.inj h).symm⟩
  | cons d pat ih =>
    obtain ⟨c, s, rfl⟩ := List.exists_cons_of_ne_nil hne
    obtain ⟨hd, hpat⟩ := List.forall_mem_cons.mp hpat
    rw [List.cons_append, after?] at h
    split at h
    · rename_i hdc
      subst hdc
      cases s with
      | nil => simp [hd] at hs
      | cons e s => exact ih hpat (by simpa using hs) (List.cons_ne_nil e s) h
    · cases h

/-- A character that `t` does not begin with is found before `t`. -/
theorem oneOf?_of_append (ht : t.head?.any p = false) (h : oneOf? p (s ++ t) = some r) :
    ∃ s', r = s' ++ t := by
  cases s with
  | nil =>
    cases t with
    | nil => cases h
    | cons c t => simp_all [oneOf?]
  | cons c s =>
    rw [List.cons_append, oneOf?] at h
    split at h
    · exact ⟨s, (Option.some.inj h).symm⟩
    · cases h

theorem skipBlank_append_left (ht : t.head?.any isBlank = false) (s : List Char) :
    skipBlank (s ++ t) = skipBlank s ++ t := by
  induction s with
  | nil => exact dropWhile_run (List.forall_mem_nil (isBlank · = true)) ht
  | cons c s ih =>
    rw [List.cons_append, skipBlank, skipBlank, List.dropWhile_cons, List.dropWhile_cons]
    split
    · exact ih
    · rfl

end followed

/-! ### Searching -/

theorem searchAll_eq_nil {α : Type} {test : Option Char → List Char → Option (α × List Char)}
    {s : List Char} (h : ∀ b t, t <:+ s → test b t = none) (before : Option Char) (skip : Nat) :
    searchAll test skip before s = [] := by
  induction s generalizing before skip with
  | nil => rfl
  | cons c s ih =>
    have hrest : ∀ b t, t <:+ s → test b t = none := fun b t ht =>
      h b t (ht.trans (List.suffix_cons c s))
    cases skip with
    | succ k => exact ih hrest _ k
    | zero =>
      rw [searchAll, h before (c :: s) (List.suffix_refl _)]
      exact ih hrest _ 0

/-- A search finds an answer if some place gives one. -/
theorem isSome_search {α : Type} {test : Option Char → List Char → Option α} {s t : List Char}
    {before : Option Char} (h : (test (s.getLast?.or before) t).isSome = true) :
    (search test before (s ++ t)).isSome = true := by
  induction s generalizing before with
  | nil =>
    obtain ⟨a, ha⟩ := Option.isSome_iff_exists.mp h
    have hhere : test before t = some a := ha
    rw [List.nil_append, search.eq_def, hhere]
    rfl
  | cons c s ih =>
    have hrest : ((c :: s).getLast?.or before) = (s.getLast?.or (some c)) := by
      cases s <;> simp [List.getLast?_cons]
    rw [List.cons_append, search.eq_def]
    dsimp only
    split
    · rfl
    · exact ih (hrest ▸ h)

/-! ### Bytes -/

@[simp] theorem byteLength_nil : byteLength [] = 0 := rfl

@[simp] theorem byteLength_cons (c : Char) (s : List Char) :
    byteLength (c :: s) = c.utf8Size + byteLength s := by
  have hfoldl : ∀ (s : List Char) n, s.foldl (fun n c => n + c.utf8Size) n = n + byteLength s := by
    intro s
    induction s with
    | nil => exact fun n => rfl
    | cons d s ih =>
      intro n
      rw [byteLength, List.foldl_cons, List.foldl_cons, ih, ih]
      omega
  rw [byteLength, List.foldl_cons, hfoldl]
  omega

@[simp] theorem byteLength_append (s t : List Char) :
    byteLength (s ++ t) = byteLength s + byteLength t := by
  induction s with
  | nil => simp
  | cons c s ih => simp [ih, Nat.add_assoc]

theorem byteLength_eq_zero {s : List Char} : byteLength s = 0 ↔ s = [] := by
  cases s with
  | nil => simp
  | cons c s => simp [Nat.ne_of_gt c.utf8Size_pos]

@[simp] theorem dropBytes_zero (s : List Char) : dropBytes 0 s = s := by cases s <;> rfl

@[simp] theorem takeBytes_zero (s : List Char) : takeBytes 0 s = [] := by
  cases s with
  | nil => rfl
  | cons c s => exact if_neg (Nat.not_le.mpr c.utf8Size_pos)

theorem dropBytes_cons (c : Char) (n : Nat) (s : List Char) :
    dropBytes (c.utf8Size + n) (c :: s) = dropBytes n s := by
  have hpos := c.utf8Size_pos
  obtain ⟨m, hm⟩ : ∃ m, c.utf8Size + n = m + 1 := ⟨c.utf8Size + n - 1, by omega⟩
  rw [hm, dropBytes, ← hm, Nat.add_sub_cancel_left]
  exact Nat.succ_ne_zero m

theorem takeBytes_cons (c : Char) (n : Nat) (s : List Char) :
    takeBytes (c.utf8Size + n) (c :: s) = c :: takeBytes n s := by
  rw [takeBytes, if_pos (Nat.le_add_right _ n), Nat.add_sub_cancel_left]

theorem dropBytes_append (s t : List Char) (n : Nat) :
    dropBytes (byteLength s + n) (s ++ t) = dropBytes n t := by
  induction s with
  | nil => simp
  | cons c s ih => rw [byteLength_cons, Nat.add_assoc, List.cons_append, dropBytes_cons, ih]

theorem takeBytes_append (s t : List Char) (n : Nat) :
    takeBytes (byteLength s + n) (s ++ t) = s ++ takeBytes n t := by
  induction s with
  | nil => simp
  | cons c s ih =>
    rw [byteLength_cons, Nat.add_assoc, List.cons_append, takeBytes_cons, ih, List.cons_append]

@[simp] theorem dropBytes_left (s t : List Char) : dropBytes (byteLength s) (s ++ t) = t :=
  (dropBytes_append s t 0).trans (dropBytes_zero t)

@[simp] theorem takeBytes_left (s t : List Char) : takeBytes (byteLength s) (s ++ t) = s := by
  have htake := takeBytes_append s t 0
  rwa [Nat.add_zero, takeBytes_zero, List.append_nil] at htake

/-- The text can be cut after this number of bytes: there are as many, and no character is torn. -/
def isBoundary (n : Nat) (s : List Char) : Bool := byteLength (takeBytes n s) == n

theorem takeBytes_append_dropBytes {n : Nat} {s : List Char} (h : isBoundary n s = true) :
    takeBytes n s ++ dropBytes n s = s := by
  induction s generalizing n with
  | nil =>
    cases n with
    | zero => rfl
    | succ n => cases h
  | cons c s ih =>
    rw [isBoundary, beq_iff_eq, takeBytes] at h
    split at h
    · rename_i hle
      obtain ⟨m, rfl⟩ := Nat.exists_eq_add_of_le hle
      rw [Nat.add_sub_cancel_left, byteLength_cons, Nat.add_left_cancel_iff] at h
      rw [takeBytes_cons, dropBytes_cons, List.cons_append, ih (beq_iff_eq.mpr h)]
    · obtain rfl : 0 = n := h
      rw [takeBytes_zero, dropBytes_zero, List.nil_append]

theorem isBoundary_append (s t : List Char) (n : Nat) :
    isBoundary (byteLength s + n) (s ++ t) = isBoundary n t := by
  rw [isBoundary, takeBytes_append, byteLength_append, isBoundary, Bool.eq_iff_iff, beq_iff_eq,
    beq_iff_eq, Nat.add_left_cancel_iff]

@[simp] theorem isBoundary_left (s t : List Char) : isBoundary (byteLength s) (s ++ t) = true := by
  rw [isBoundary, takeBytes_left, beq_self_eq_true]

theorem isBoundary_dropBytes {n : Nat} {s : List Char} (h : isBoundary n s = true) (m : Nat) :
    isBoundary m (dropBytes n s) = isBoundary (n + m) s := by
  have happend := isBoundary_append (takeBytes n s) (dropBytes n s) m
  rw [takeBytes_append_dropBytes h, beq_iff_eq.mp h] at happend
  exact happend.symm

theorem dropBytes_dropBytes {n : Nat} {s : List Char} (h : isBoundary n s = true) (m : Nat) :
    dropBytes m (dropBytes n s) = dropBytes (n + m) s := by
  have happend := dropBytes_append (takeBytes n s) (dropBytes n s) m
  rw [takeBytes_append_dropBytes h, beq_iff_eq.mp h] at happend
  exact happend.symm

/-! ### Filling slots

The pieces of a template with the slot between them are the template. So with a single slot, what is
put in stands between two pieces that do not depend on it. -/

theorem piecesFrom_ne_nil (slot : List Char) (skip : Nat) (s : List Char) :
    piecesFrom slot skip s ≠ [] := by
  induction s generalizing skip with
  | nil => simp [piecesFrom]
  | cons c rest ih =>
    unfold piecesFrom
    split
    · exact ih _
    · split
      · exact List.cons_ne_nil _ _
      · split <;> exact List.cons_ne_nil _ _

theorem intercalate_cons (sep : List Char) (piece : List Char) {pieces : List (List Char)}
    (h : pieces ≠ []) : sep.intercalate (piece :: pieces) = piece ++ sep ++ sep.intercalate pieces := by
  cases pieces with
  | nil => exact absurd rfl h
  | cons next pieces => simp [List.intercalate_cons_cons]

/-- With the slot between them the pieces are the template again. -/
theorem intercalate_piecesFrom {slot : List Char} (hslot : slot ≠ []) (s : List Char) {skip : Nat}
    (h : skip ≤ s.length) : slot.intercalate (piecesFrom slot skip s) = s.drop skip := by
  induction s generalizing skip with
  | nil => simp [piecesFrom]
  | cons c rest ih =>
    unfold piecesFrom
    split
    · rename_i k
      rw [ih (by simpa using h), List.drop_succ_cons]
    · split
      · rename_i hprefix
        obtain ⟨after, hafter⟩ := List.isPrefixOf_iff_prefix.mp hprefix
        have hlength : slot.length + after.length = rest.length + 1 := by
          simpa using congrArg List.length hafter
        have hpos : 0 < slot.length := List.length_pos_iff.mpr hslot
        have hdrop : rest.drop (slot.length - 1) = after := by
          rw [← List.drop_succ_cons (a := c), Nat.sub_add_cancel hpos, ← hafter, List.drop_left]
        rw [intercalate_cons slot [] (piecesFrom_ne_nil _ _ _), ih (by omega), hdrop]
        exact hafter
      · have hrest := ih (Nat.zero_le _)
        have hne := piecesFrom_ne_nil slot 0 rest
        cases hpieces : piecesFrom slot 0 rest with
        | nil => exact absurd hpieces hne
        | cons piece pieces =>
          rw [hpieces] at hrest
          cases pieces with
          | nil => simpa using hrest
          | cons next pieces => simpa [List.intercalate_cons_cons] using hrest

/-- A template with a single slot: the text that is put in stands between the two pieces. -/
theorem exists_fill {slot template : String} (hslot : slot.toList ≠ [])
    (h : (piecesFrom slot.toList 0 template.toList).length = 2) :
    ∃ front back, template.toList = front ++ slot.toList ++ back ∧
      ∀ new : String, (fill slot new template).toList = front ++ new.toList ++ back := by
  obtain ⟨front, back, hpieces⟩ := List.length_eq_two.mp h
  have htemplate := intercalate_piecesFrom hslot template.toList (Nat.zero_le _)
  rw [hpieces, intercalate_cons _ _ (List.cons_ne_nil _ _), List.intercalate_singleton] at htemplate
  refine ⟨front, back, htemplate.symm, fun new => ?_⟩
  rw [fill, String.toList_ofList, hpieces, intercalate_cons _ _ (List.cons_ne_nil _ _),
    List.intercalate_singleton]

end Flowline.Text
