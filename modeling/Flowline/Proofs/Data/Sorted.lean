import Flowline.Sandbox.Input
import Mathlib.Data.List.TakeWhile

/-!
# Fields in ascending order of key

Fields are sorted by inserting one after another, where a new entry takes the place of one with the
same key. Sorting keeps what was last under each key, and leaves alone what is in order.
-/
namespace Flowline

variable {α : Type} {fs : List (String × α)}

/-- An entry among fields in ascending order, in place of one with the same key. -/
def insertSorted (acc : List (String × α)) (f : String × α) : List (String × α) :=
  acc.takeWhile (·.1 < f.1) ++ f :: (acc.dropWhile (·.1 < f.1)).dropWhile (·.1 == f.1)

theorem sortedByKey_eq_foldl (fs : List (String × α)) : sortedByKey fs = fs.foldl insertSorted [] :=
  rfl

/-! ### Entries -/

theorem lookup_of_mem (h : (fs.map (·.1)).Nodup) {p : String × α} (hp : p ∈ fs) :
    fs.lookup p.1 = some p.2 := by
  induction fs with
  | nil => cases hp
  | cons q fs ih =>
    obtain ⟨hq, hnodup⟩ := List.nodup_cons.mp h
    rw [List.lookup_cons]
    rcases List.mem_cons.mp hp with rfl | hp
    · rw [beq_self_eq_true]
    · have hne : p.1 ≠ q.1 := fun heq => hq (List.mem_map.mpr ⟨p, hp, heq⟩)
      rw [beq_eq_false_iff_ne.mpr hne]
      exact ih hnodup hp

theorem mem_of_lookup {key : String} {a : α} (h : fs.lookup key = some a) : (key, a) ∈ fs := by
  obtain ⟨before, after, rfl, -⟩ := List.lookup_eq_some_iff.mp h
  simp

theorem lookup_reverse (key : String) (h : (fs.map (·.1)).Nodup) :
    fs.reverse.lookup key = fs.lookup key := by
  induction fs with
  | nil => rfl
  | cons p fs ih =>
    obtain ⟨k, a⟩ := p
    obtain ⟨hk, hnodup⟩ := List.nodup_cons.mp h
    rw [List.reverse_cons, List.lookup_append, ih hnodup, List.lookup_cons, List.lookup_cons,
      List.lookup_nil]
    cases hkey : key == k with
    | false => exact Option.or_none
    | true =>
      have hnone : fs.lookup key = none := List.lookup_eq_none_iff.mpr fun p hp =>
        bne_iff_ne.mpr fun hp' => hk (List.mem_map.mpr ⟨p, hp, hp'.symm.trans (eq_of_beq hkey)⟩)
      rw [hnone, Option.none_or]

/-! ### One entry more -/

theorem lookup_insertSorted (key : String) (acc : List (String × α)) (f : String × α) :
    (insertSorted acc f).lookup key = if key = f.1 then some f.2 else acc.lookup key := by
  obtain ⟨k, a⟩ := f
  have hbelow : (acc.takeWhile (·.1 < k)).lookup k = none :=
    List.lookup_eq_none_iff.mpr fun p hp =>
      bne_iff_ne.mpr (String.ne_of_lt (by simpa using List.mem_takeWhile_imp hp)).symm
  unfold insertSorted
  by_cases hk : key = k
  · rw [if_pos hk, hk, List.lookup_append, hbelow, Option.none_or, List.lookup_cons_self]
  · have hequal : ((acc.dropWhile (·.1 < k)).takeWhile (·.1 == k)).lookup key = none := by
      refine List.lookup_eq_none_iff.mpr fun p hp => bne_iff_ne.mpr fun h => hk ?_
      exact h.trans (by simpa using List.mem_takeWhile_imp hp)
    have hacc := calc acc.lookup key
      _ = (acc.takeWhile (·.1 < k) ++ ((acc.dropWhile (·.1 < k)).takeWhile (·.1 == k) ++
            (acc.dropWhile (·.1 < k)).dropWhile (·.1 == k))).lookup key := by
        rw [List.takeWhile_append_dropWhile, List.takeWhile_append_dropWhile]
      _ = ((acc.takeWhile (·.1 < k)).lookup key).or
            (((acc.dropWhile (·.1 < k)).dropWhile (·.1 == k)).lookup key) := by
        rw [List.lookup_append, List.lookup_append, hequal, Option.none_or]
    rw [if_neg hk, hacc, List.lookup_append, List.lookup_cons, beq_eq_false_iff_ne.mpr hk]

/-- An entry under a new key joins the others. -/
theorem insertSorted_perm {acc : List (String × α)} {f : String × α} (hf : f.1 ∉ acc.map (·.1)) :
    (insertSorted acc f).Perm (f :: acc) := by
  have hkept : (acc.dropWhile (·.1 < f.1)).dropWhile (·.1 == f.1) = acc.dropWhile (·.1 < f.1) := by
    refine List.dropWhile_eq_self_iff.mpr fun hlen hhead => hf ?_
    have hmem := (List.dropWhile_sublist (l := acc) (·.1 < f.1)).subset (List.getElem_mem hlen)
    exact List.mem_map.mpr ⟨_, hmem, by simpa using hhead⟩
  unfold insertSorted
  rw [hkept]
  refine List.perm_middle.trans (.cons _ (.of_eq ?_))
  exact List.takeWhile_append_dropWhile

/-- An entry above all others comes last. -/
theorem insertSorted_of_above {acc : List (String × α)} {f : String × α}
    (h : ∀ g ∈ acc, g.1 < f.1) : insertSorted acc f = acc ++ [f] := by
  have hbelow : ∀ g ∈ acc, decide (g.1 < f.1) = true := fun g hg => decide_eq_true (h g hg)
  unfold insertSorted
  rw [List.takeWhile_eq_self_iff.mpr hbelow, List.dropWhile_eq_nil_iff.mpr hbelow,
    List.dropWhile_nil]

/-! ### All entries -/

/-- Sorting keeps the last value under each key. -/
theorem lookup_sortedByKey (key : String) (fs : List (String × α)) :
    (sortedByKey fs).lookup key = fs.reverse.lookup key := by
  have hfold : ∀ acc : List (String × α),
      (fs.foldl insertSorted acc).lookup key = (fs.reverse.lookup key).or (acc.lookup key) := by
    induction fs with
    | nil => simp
    | cons f fs ih =>
      obtain ⟨k, a⟩ := f
      intro acc
      rw [List.foldl_cons, ih, lookup_insertSorted, List.reverse_cons, List.lookup_append,
        List.lookup_cons, List.lookup_nil, Option.or_assoc]
      by_cases hk : key = k
      · simp [hk]
      · simp [hk, beq_eq_false_iff_ne.mpr hk]
  rw [sortedByKey_eq_foldl, hfold, List.lookup_nil, Option.or_none]

/-- Sorting keeps all entries when no key repeats. -/
theorem sortedByKey_perm (h : (fs.map (·.1)).Nodup) : (sortedByKey fs).Perm fs := by
  have hfold : ∀ acc : List (String × α), ((acc ++ fs).map (·.1)).Nodup →
      (fs.foldl insertSorted acc).Perm (acc ++ fs) := by
    clear h
    induction fs with
    | nil => intro acc _; simp
    | cons f fs ih =>
      intro acc hnodup
      have hmove : (acc ++ f :: fs).Perm (f :: acc ++ fs) := List.perm_middle
      have hnodup' := (hmove.map (·.1)).nodup_iff.mp hnodup
      have hf : f.1 ∉ acc.map (·.1) := by
        rw [List.cons_append, List.map_cons, List.nodup_cons, List.map_append] at hnodup'
        exact fun hmem => hnodup'.1 (List.mem_append_left _ hmem)
      have hinsert := insertSorted_perm hf
      refine (ih _ ?_).trans ((hinsert.append_right fs).trans hmove.symm)
      exact ((hinsert.append_right fs).map (·.1)).nodup_iff.mpr hnodup'
  exact hfold [] h

/-- Fields in ascending order of key are sorted already. -/
theorem sortedByKey_eq (h : fs.Pairwise fun f g => f.1 < g.1) : sortedByKey fs = fs := by
  have hfold : ∀ acc : List (String × α), (acc ++ fs).Pairwise (fun f g => f.1 < g.1) →
      fs.foldl insertSorted acc = acc ++ fs := by
    clear h
    induction fs with
    | nil => intro acc _; exact (List.append_nil acc).symm
    | cons f fs ih =>
      intro acc hsorted
      have habove : ∀ g ∈ acc, g.1 < f.1 := fun g hg =>
        (List.pairwise_append.mp hsorted).2.2 g hg f List.mem_cons_self
      have hmove : acc ++ f :: fs = (acc ++ [f]) ++ fs := by simp
      rw [List.foldl_cons, insertSorted_of_above habove, hmove]
      exact ih _ (hmove ▸ hsorted)
  exact hfold [] h

end Flowline
