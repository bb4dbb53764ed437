import Flowline.Document.Basic
import Mathlib.Data.List.Nodup

/-! Lists without repetitions: `distinct` keeps the first occurrence of each element. -/
namespace Flowline

variable {α : Type*} [DecidableEq α]

@[simp] theorem mem_distinct {a : α} {l : List α} : a ∈ distinct l ↔ a ∈ l := by
  induction l with
  | nil => simp [distinct]
  | cons b l ih =>
    by_cases h : a = b
    · simp [distinct, h]
    · simp [distinct, h, ih]

theorem distinct_sublist (l : List α) : (distinct l).Sublist l := by
  induction l with
  | nil => simp [distinct]
  | cons b l ih => exact (List.filter_sublist.trans ih).cons_cons b

theorem nodup_distinct (l : List α) : (distinct l).Nodup := by
  induction l with
  | nil => simp [distinct]
  | cons b l ih => exact List.nodup_cons.mpr ⟨by simp, ih.filter _⟩

theorem distinct_eq_self {l : List α} (h : l.Nodup) : distinct l = l := by
  induction l with
  | nil => rfl
  | cons b l ih =>
    have hb : ∀ a ∈ l, a ≠ b := fun a ha hab => (List.nodup_cons.mp h).1 (hab ▸ ha)
    simp only [distinct, ih (List.nodup_cons.mp h).2, List.cons.injEq, true_and]
    exact List.filter_eq_self.mpr (by simpa using hb)

/-- Elements keep the order in which they come first. -/
theorem distinct_pairwise (l : List α) : (distinct l).Pairwise (l.idxOf · < l.idxOf ·) := by
  induction l with
  | nil => exact List.Pairwise.nil
  | cons b l ih =>
    have hlater : ∀ a, a ≠ b → (b :: l).idxOf a = l.idxOf a + 1 := fun a ha =>
      List.idxOf_cons_ne l ha.symm
    refine List.pairwise_cons.mpr ⟨fun a ha => ?_, ?_⟩
    · have hab : a ≠ b := by simpa using (List.mem_filter.mp ha).2
      rw [List.idxOf_cons_self, hlater a hab]
      exact Nat.succ_pos _
    · refine List.pairwise_filter.mpr (ih.imp fun {a c} hac ha hc => ?_)
      rw [hlater a (by simpa using ha), hlater c (by simpa using hc)]
      exact Nat.succ_lt_succ hac

theorem distinct_concat (l : List α) (a : α) :
    distinct (l ++ [a]) = if a ∈ l then distinct l else distinct l ++ [a] := by
  induction l with
  | nil => simp [distinct]
  | cons b l ih =>
    rw [List.cons_append, distinct, ih, distinct]
    by_cases ha : a ∈ l
    · rw [if_pos ha, if_pos (List.mem_cons_of_mem b ha)]
    · by_cases hab : a = b
      · subst hab
        simp [ha]
      · simp [ha, hab]

theorem filter_distinct (p : α → Bool) (l : List α) :
    (distinct l).filter p = distinct (l.filter p) := by
  induction l with
  | nil => rfl
  | cons a l ih =>
    have hcomm : ((distinct l).filter (· ≠ a)).filter p = (distinct (l.filter p)).filter (· ≠ a) := by
      rw [List.filter_comm, ih]
    rw [distinct]
    by_cases hp : p a = true
    · rw [List.filter_cons_of_pos hp, List.filter_cons_of_pos hp, distinct, hcomm]
    · have hkept : ∀ b ∈ distinct (l.filter p), decide (b ≠ a) = true := by
        intro b hb
        have hpb := (List.mem_filter.mp (mem_distinct.mp hb)).2
        exact decide_eq_true fun heq => hp (heq ▸ hpb)
      rw [List.filter_cons_of_neg hp, List.filter_cons_of_neg hp, hcomm,
        List.filter_eq_self.mpr hkept]

/-- Renaming that keeps elements apart keeps their first occurrences. -/
theorem map_distinct {β : Type*} [DecidableEq β] {f : α → β} {l : List α}
    (hf : ∀ a ∈ l, ∀ b ∈ l, f a = f b → a = b) : (distinct l).map f = distinct (l.map f) := by
  induction l with
  | nil => rfl
  | cons a l ih =>
    have hapart : ∀ b ∈ distinct l, (b ≠ a ↔ f b ≠ f a) := fun b hb =>
      not_congr ⟨congrArg f, hf b (List.mem_cons_of_mem a (mem_distinct.mp hb)) a List.mem_cons_self⟩
    have htail : (distinct l).map f = distinct (l.map f) := ih fun b hb c hc =>
      hf b (List.mem_cons_of_mem a hb) c (List.mem_cons_of_mem a hc)
    rw [distinct, List.map_cons, List.map_cons, distinct, ← htail, List.filter_map]
    refine congrArg (fun rest => f a :: rest.map f) (List.filter_congr fun b hb => ?_)
    exact decide_eq_decide.mpr (hapart b hb)

/-- Only a list without repetitions keeps its length. -/
theorem nodup_of_length_distinct {l : List α} (h : (distinct l).length = l.length) : l.Nodup :=
  (distinct_sublist l).eq_of_length h ▸ nodup_distinct l

/-- What comes later leaves the elements before it where they are. -/
theorem isPrefix_distinct_append (l l' : List α) : distinct l <+: distinct (l ++ l') := by
  induction l' generalizing l with
  | nil => exact (List.append_nil l).symm ▸ List.prefix_rfl
  | cons a l' ih =>
    have hfirst : distinct l <+: distinct (l ++ [a]) := by
      rw [distinct_concat]
      split
      · exact List.prefix_rfl
      · exact List.prefix_append _ _
    rw [List.append_cons]
    exact hfirst.trans (ih (l ++ [a]))

/-- An element keeps its index exactly if nothing is repeated up to it. -/
theorem getElem?_iff_nodup_take {l : List α} {i : Nat} {a : α} (h : (distinct l)[i]? = some a) :
    l[i]? = some a ↔ (l.take (i + 1)).Nodup := by
  have hprefix : distinct (l.take (i + 1)) <+: distinct l := by
    simpa using isPrefix_distinct_append (l.take (i + 1)) (l.drop (i + 1))
  have hi : i < l.length :=
    Nat.lt_of_lt_of_le (List.getElem?_eq_some_iff.mp h).1 (distinct_sublist l).length_le
  constructor
  · intro hentry
    by_contra hrepeated
    have hshort : (distinct (l.take (i + 1))).length ≤ i := by
      have hle := (distinct_sublist (l.take (i + 1))).length_le
      have hne := mt nodup_of_length_distinct hrepeated
      rw [List.length_take] at hle hne
      omega
    -- The entry is among the first ones, which are all different from the one at `i`.
    have hmem : a ∈ distinct (l.take (i + 1)) := by
      rw [mem_distinct]
      exact List.mem_of_getElem? (i := i) (by rw [List.getElem?_take_of_lt (by omega), hentry])
    obtain ⟨j, hj⟩ := List.mem_iff_getElem?.mp hmem
    have hjlt := (List.getElem?_eq_some_iff.mp hj).1
    have hj' : (distinct l)[j]? = some a := by
      obtain ⟨rest, hrest⟩ := hprefix
      rw [← hrest, List.getElem?_append_left hjlt, hj]
    have heq := (List.nodup_iff_getElem?_ne_getElem?.mp (nodup_distinct l)) j i (by omega)
      (List.getElem?_eq_some_iff.mp h).1
    exact heq (hj'.trans h.symm)
  · intro hnodup
    rw [distinct_eq_self hnodup] at hprefix
    obtain ⟨rest, hrest⟩ := hprefix
    rw [← hrest, List.getElem?_append_left (by rw [List.length_take]; omega),
      List.getElem?_take_of_lt (by omega)] at h
    exact h

end Flowline
