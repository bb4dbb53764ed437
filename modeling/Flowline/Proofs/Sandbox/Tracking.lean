import Flowline.Proofs.Data.Sorted
import Flowline.Sandbox.Tracking
import Mathlib.Data.List.Induction
import Mathlib.Data.List.Nodup

/-!
# The live units and their marks

Marks are made below marks that are there already, so a forest of them grows at its end. A mark without
others below it is cancelled alone.

Each operation on the list of live units changes the units of its own run only. A run without units stays
listed until it is taken off.
-/
namespace Flowline.Cancellation

/-- Marks that came about one by one: each stands behind its parent, and is cancelled if this is. -/
inductive IsForest : Cancellation → Prop
  | nil : IsForest ⟨[]⟩
  | concat {marks : List (Option Nat × Bool)} {parent : Option Nat} {mark : Bool} :
      IsForest ⟨marks⟩ →
      (∀ p ∈ parent, p < marks.length ∧ (isCancelled ⟨marks⟩ p = true → mark = true)) →
      IsForest ⟨marks ++ [(parent, mark)]⟩

/-- No mark stands below `i`. -/
def IsLeaf (c : Cancellation) (i : Nat) : Prop := some i ∉ c.marks.map (·.1)

variable {c : Cancellation} {i j : Nat}

theorem isForest_single : IsForest {} :=
  show IsForest ⟨[] ++ [(none, false)]⟩ from IsForest.nil.concat fun _ hp => by cases hp

theorem isCancelled_concat (marks : List (Option Nat × Bool)) (parent : Option Nat) (mark : Bool)
    (j : Nat) : isCancelled ⟨marks ++ [(parent, mark)]⟩ j =
      if j = marks.length then mark else isCancelled ⟨marks⟩ j := by
  simp only [isCancelled, List.getElem?_append]
  by_cases hlt : j < marks.length
  · rw [if_pos hlt, if_neg (Nat.ne_of_lt hlt)]
  · rw [if_neg hlt]
    by_cases heq : j = marks.length
    · simp [heq]
    · have hlater : marks.length ≤ j := Nat.not_lt.mp hlt
      have hbehind : j - marks.length ≠ 0 := by omega
      rw [if_neg heq, List.getElem?_eq_none hlater, List.getElem?_eq_none (by simp; omega)]

/-! ### Cancelling -/

/-- The last mark is looked at when all others have been. -/
theorem cancel_concat (marks : List (Option Nat × Bool)) (parent : Option Nat) (mark : Bool)
    (i : Nat) : cancel ⟨marks ++ [(parent, mark)]⟩ i = ⟨(cancel ⟨marks⟩ i).marks ++
      [(parent, mark || marks.length == i || parent.any (cancel ⟨marks⟩ i).isCancelled)]⟩ := by
  rw [cancel, List.zipIdx_append, List.foldl_append, Nat.zero_add]
  cases parent <;> rfl

theorem map_fst_cancel (c : Cancellation) (i : Nat) :
    (c.cancel i).marks.map (·.1) = c.marks.map (·.1) := by
  obtain ⟨marks⟩ := c
  induction marks using List.reverseRecOn with
  | nil => rfl
  | append_singleton marks m ih =>
    rw [cancel_concat, List.map_append, List.map_append, ih]
    rfl

theorem length_cancel (c : Cancellation) (i : Nat) :
    (c.cancel i).marks.length = c.marks.length := by
  simpa using congrArg List.length (map_fst_cancel c i)

theorem IsLeaf.cancel (h : c.IsLeaf j) (i : Nat) : (c.cancel i).IsLeaf j := by
  rw [IsLeaf, map_fst_cancel]
  exact h

theorem IsForest.cancel (h : c.IsForest) (i : Nat) : (c.cancel i).IsForest := by
  induction h with
  | nil => exact .nil
  | concat _ hlast ih =>
    rw [cancel_concat]
    refine IsForest.concat ih fun p hp => ⟨?_, fun habove => ?_⟩
    · rw [length_cancel]
      exact (hlast p hp).1
    · have hany := Option.mem_def.mp hp
      simp only [hany, Option.any_some]
      rw [habove, Bool.or_true]

/-- A mark without others below it is cancelled, and no other. -/
theorem IsForest.isCancelled_cancel (h : c.IsForest) (hleaf : c.IsLeaf i) (j : Nat) :
    (c.cancel i).isCancelled j =
      (c.isCancelled j || (j == i && decide (j < c.marks.length))) := by
  induction h generalizing j with
  | nil => simp [Cancellation.cancel, isCancelled]
  | @concat marks parent mark _ hlast ih =>
    obtain ⟨hbefore, hparent⟩ : IsLeaf ⟨marks⟩ i ∧ some i ≠ parent := by
      simpa [IsLeaf, not_or] using hleaf
    -- the parent is cancelled now only if it was before, and then the mark is
    have hinherited : parent.any (Cancellation.cancel ⟨marks⟩ i).isCancelled = true →
        mark = true := by
      intro hany
      obtain _ | p := parent
      · cases hany
      · have hp : p ≠ i := fun heq => hparent (congrArg some heq.symm)
        rw [Option.any_some, ih hbefore, beq_eq_false_iff_ne.mpr hp, Bool.false_and,
          Bool.or_false] at hany
        exact (hlast p rfl).2 hany
    rw [cancel_concat, isCancelled_concat, isCancelled_concat, length_cancel, ih hbefore]
    by_cases hj : j = marks.length
    · subst hj
      rw [if_pos rfl, if_pos rfl]
      cases hany : parent.any (Cancellation.cancel ⟨marks⟩ i).isCancelled with
      | true => simp [hinherited hany]
      | false => simp
    · rw [if_neg hj, if_neg hj]
      have hshorter : (j < (marks ++ [(parent, mark)]).length) = (j < marks.length) := by
        rw [List.length_append, List.length_singleton, eq_iff_iff]
        omega
      simp only [hshorter]

/-! ### Cancelling several marks -/

theorem IsForest.cancelAll (h : c.IsForest) (is : List Nat) : (c.cancelAll is).IsForest := by
  induction is generalizing c with
  | nil => exact h
  | cons i is ih => exact ih (h.cancel i)

theorem map_fst_cancelAll (c : Cancellation) (is : List Nat) :
    (c.cancelAll is).marks.map (·.1) = c.marks.map (·.1) := by
  induction is generalizing c with
  | nil => rfl
  | cons i is ih => exact (ih (c.cancel i)).trans (map_fst_cancel c i)

/-- Marks without others below them are cancelled, and no others. -/
theorem IsForest.isCancelled_cancelAll (h : c.IsForest) {is : List Nat}
    (his : ∀ i ∈ is, c.IsLeaf i ∧ i < c.marks.length) (j : Nat) :
    (c.cancelAll is).isCancelled j = (c.isCancelled j || decide (j ∈ is)) := by
  induction is generalizing c with
  | nil => simp [Cancellation.cancelAll]
  | cons i is ih =>
    obtain ⟨⟨hi, hlt⟩, hrest⟩ := List.forall_mem_cons.mp his
    have hlater : ∀ k ∈ is, (c.cancel i).IsLeaf k ∧ k < (c.cancel i).marks.length := by
      intro k hk
      rw [length_cancel]
      exact ⟨(hrest k hk).1.cancel i, (hrest k hk).2⟩
    rw [Cancellation.cancelAll, List.foldl_cons, ← Cancellation.cancelAll, ih (h.cancel i) hlater,
      h.isCancelled_cancel hi]
    by_cases hj : j = i
    · simp [hj, hlt]
    · simp [hj, beq_eq_false_iff_ne.mpr hj]

/-! ### New marks -/

theorem IsForest.child (h : c.IsForest) (hi : i < c.marks.length) : (c.child i).1.IsForest :=
  IsForest.concat h fun p hp => by
    obtain rfl := Option.some.inj hp
    exact ⟨hi, id⟩

theorem IsLeaf.child (h : c.IsLeaf j) (hne : j ≠ i) : (c.child i).1.IsLeaf j := by
  have hlast : some j ≠ some i := fun heq => hne (Option.some.inj heq)
  simpa [IsLeaf, Cancellation.child, hlast] using h

end Flowline.Cancellation

namespace Flowline.Tracking

variable {t : Tracking} {run : String}

/-- Each run is listed once. -/
def IsTable (t : Tracking) : Prop := (t.runs.map (·.1)).Nodup

theorem lookup_eq_some_units (h : (t.runs.lookup run).isSome = true) :
    t.runs.lookup run = some (t.units run) := by
  obtain ⟨us, hus⟩ := Option.isSome_iff_exists.mp h
  rw [units, hus, Option.getD_some]

theorem not_mem_of_lookup_eq_none (h : t.runs.lookup run = none) : run ∉ t.runs.map (·.1) := by
  intro hmem
  obtain ⟨entry, hentry, hrun⟩ := List.mem_map.mp hmem
  exact bne_iff_ne.mp (List.lookup_eq_none_iff.mp h entry hentry) hrun.symm

theorem lookup_update (t : Tracking) (run : String)
    (f : List (String × Nat) → List (String × Nat)) (r : String) :
    (t.update run f).runs.lookup r =
      if r = run then (t.runs.lookup run).map f else t.runs.lookup r := by
  obtain ⟨runs, marks⟩ := t
  simp only [update]
  induction runs with
  | nil => simp
  | cons entry runs ih =>
    obtain ⟨key, us⟩ := entry
    rw [List.map_cons, List.lookup_cons, List.lookup_cons, List.lookup_cons, ih]
    by_cases hr : r = run
    · subst hr
      by_cases hkey : r = key
      · simp [hkey]
      · simp [beq_eq_false_iff_ne.mpr hkey, Ne.symm hkey]
    · by_cases hkey : key = run
      · subst hkey
        simp [hr, beq_eq_false_iff_ne.mpr hr]
      · simp [hr, hkey]

theorem map_fst_update (t : Tracking) (run : String)
    (f : List (String × Nat) → List (String × Nat)) :
    (t.update run f).runs.map (·.1) = t.runs.map (·.1) := by
  rw [update, List.map_map]
  refine List.map_congr_left fun entry _ => ?_
  simp only [Function.comp_apply]
  split <;> rfl

/-! ### Registering -/

theorem lookup_register (t : Tracking) (run unit : String) (context : Nat) (r : String) :
    (t.register run unit context).runs.lookup r =
      if r = run then some ((t.units run).filter (·.1 != unit) ++ [(unit, t.nextMark)])
      else t.runs.lookup r := by
  rw [register, insert]
  by_cases hrun : (t.runs.lookup run).isSome = true
  · rw [if_pos hrun, lookup_update, lookup_eq_some_units hrun, Option.map_some]
  · have hnone : t.runs.lookup run = none := Option.not_isSome_iff_eq_none.mp hrun
    rw [if_neg hrun, List.lookup_append, units, hnone]
    by_cases hr : r = run
    · simp [hr, hnone]
    · simp [hr, List.lookup_cons, beq_eq_false_iff_ne.mpr hr]

theorem IsTable.register (h : t.IsTable) (run unit : String) (context : Nat) :
    (t.register run unit context).IsTable := by
  rw [IsTable, Tracking.register, insert]
  by_cases hrun : (t.runs.lookup run).isSome = true
  · rw [if_pos hrun, map_fst_update]
    exact h
  · have hnew := not_mem_of_lookup_eq_none (Option.not_isSome_iff_eq_none.mp hrun)
    rw [if_neg hrun, List.map_append]
    exact List.Nodup.append h (List.nodup_singleton run) (List.disjoint_singleton.mpr hnew)

/-! ### Taking a unit off -/

theorem lookup_removeUnit (t : Tracking) (run unit r : String) :
    (t.removeUnit run unit).runs.lookup r =
      if r = run then (t.runs.lookup run).map (List.filter (·.1 != unit)) else t.runs.lookup r :=
  lookup_update t run _ r

theorem IsTable.removeUnit (h : t.IsTable) (run unit : String) : (t.removeUnit run unit).IsTable := by
  rw [IsTable, Tracking.removeUnit, map_fst_update]
  exact h

theorem lookup_filter {α : Type} {entries : List (String × α)} (h : (entries.map (·.1)).Nodup)
    (p : String × α → Bool) (key : String) :
    (entries.filter p).lookup key = (entries.lookup key).filter fun a => p (key, a) := by
  induction entries with
  | nil => rfl
  | cons entry entries ih =>
    obtain ⟨key', a⟩ := entry
    obtain ⟨hkey', hrest⟩ := List.nodup_cons.mp h
    by_cases hkey : key = key'
    · subst hkey
      have hnone : entries.lookup key = none := List.lookup_eq_none_iff.mpr fun e he =>
        bne_iff_ne.mpr fun heq => hkey' (List.mem_map.mpr ⟨e, he, heq.symm⟩)
      by_cases hp : p (key, a) = true
      · rw [List.filter_cons_of_pos hp, List.lookup_cons_self, List.lookup_cons_self,
          Option.filter_some, if_pos hp]
      · rw [List.filter_cons_of_neg hp, ih hrest, hnone, List.lookup_cons_self, Option.filter_some,
          if_neg hp, Option.filter_none]
    · have hne := beq_eq_false_iff_ne.mpr hkey
      by_cases hp : p (key', a) = true
      · simp [hp, ih hrest, List.lookup_cons, hne]
      · simp [hp, ih hrest, List.lookup_cons, hne]

theorem lookup_removeRun (h : t.IsTable) (run r : String) :
    (t.removeRun run).runs.lookup r =
      if r = run then (t.runs.lookup run).filter (! ·.isEmpty) else t.runs.lookup r := by
  rw [removeRun, lookup_filter h]
  by_cases hr : r = run
  · simp [hr]
  · rw [if_neg hr]
    cases t.runs.lookup r with
    | none => rfl
    | some us => simp [hr]

theorem IsTable.removeRun (h : t.IsTable) (run : String) : (t.removeRun run).IsTable :=
  h.sublist (List.filter_sublist.map _)

end Flowline.Tracking
