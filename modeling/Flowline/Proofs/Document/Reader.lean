import Flowline.Document.Reader

/-! A text that is refused as a document is refused with an error, not with warnings alone. -/
namespace Flowline.Document

/-- What is refused has an error among its faults. -/
def RefusesWithError {α : Type} (x : Checked α) : Prop :=
  ∀ ds, x = .error ds → ∃ d ∈ ds, d.isError = true

namespace RefusesWithError

variable {α β : Type} {x : Checked α}

theorem ok (a : α) : RefusesWithError (.ok a) := fun _ h => nomatch h

theorem error {ds : List Diagnostic} {d : Diagnostic} (hd : d ∈ ds) (he : d.isError = true) :
    RefusesWithError (α := α) (.error ds) := by
  rintro _ ⟨⟩
  exact ⟨d, hd, he⟩

theorem fault {d : Diagnostic} (he : d.isError = true) : RefusesWithError (α := α) (.error [d]) :=
  error (List.mem_singleton_self d) he

theorem map (h : RefusesWithError x) (f : α → β) : RefusesWithError (x.map f) := by
  cases x with
  | ok a => exact ok (f a)
  | error ds => exact fun _ hds => by cases hds; exact h _ rfl

/-- The faults of a refused part are among those that are reported. -/
theorem faults_or_ok (h : RefusesWithError x) :
    (∃ d ∈ faults x, d.isError = true) ∨ ∃ a, x = .ok a := by
  cases x with
  | ok a => exact Or.inr ⟨a, rfl⟩
  | error ds => exact Or.inl (h ds rfl)

end RefusesWithError

open RefusesWithError

theorem readField_refuses {α : Type} (index : Nat) (field : EntryField) (convert : Value → Option α)
    (v : Option Value) : RefusesWithError (readField index field convert v) := by
  unfold readField
  split
  · exact fault rfl
  · split
    · exact ok _
    · exact fault rfl

theorem readType_refuses (index : Nat) (v : Option Value) :
    RefusesWithError (readType index v) := by
  unfold readType
  split
  · split
    · exact fault rfl
    · exact ok _
  · exact readField_refuses _ _ _ _

/-- Every entry of the list that is no text is an error. -/
theorem readTargets_faults (index i : Nat) (vs : List Value) :
    ∀ d ∈ (readTargets index i vs).2, d.isError = true := by
  fun_induction readTargets index i vs with
  | case1 => simp
  | case2 i s rest ids faults heq ih =>
    rw [heq] at ih
    exact ih
  | case3 i v rest hv ids faults heq ih =>
    rw [heq] at ih
    exact List.forall_mem_cons.mpr ⟨rfl, ih⟩

theorem readDependencies_refuses (index : Nat) (v : Option Value) :
    RefusesWithError (readDependencies index v) := by
  unfold readDependencies
  split
  · exact ok _
  · exact ok _
  · rename_i vs
    have hall := readTargets_faults index 0 vs
    split
    · exact ok _
    · rename_i ids faults hne heq
      rw [heq] at hall
      obtain ⟨d, hd⟩ := List.exists_mem_of_ne_nil faults hne
      exact error hd (hall d hd)
  · exact fault rfl

/-- Placing faults does not change how severe they are. -/
theorem exists_error_placed {ds : List Diagnostic} (h : ∃ d ∈ ds, d.isError = true)
    {place : Diagnostic → Diagnostic} (hplace : ∀ d, (place d).isError = d.isError) :
    ∃ d ∈ ds.map place, d.isError = true := by
  obtain ⟨d, hd, he⟩ := h
  exact ⟨place d, List.mem_map_of_mem hd, (hplace d).trans he⟩

theorem readEntry_refuses (index : Nat) (v : Value) : RefusesWithError (readEntry index v) := by
  unfold readEntry
  split
  · rename_i fs
    have hid := readField_refuses index .id Value.asStr? (Fields.get? fs "id")
    have htype := readType_refuses index (Fields.get? fs "type")
    have hparams := readField_refuses index .params Value.asMap?
      (if Fields.has fs "params" then Fields.get? fs "params" else Fields.get? fs "parameters")
    have hdepends := readDependencies_refuses index
      ((Fields.get? fs "depends_on").orElse fun _ => Fields.get? fs "dependsOn")
    revert hid htype hparams hdepends
    generalize readField index .id _ _ = id
    generalize readType index _ = type
    generalize readField index .params _ _ = params
    generalize readDependencies index _ = dependsOn
    intro hid htype hparams hdepends
    dsimp only
    split
    · exact ok _
    · rename_i hnot
      rintro _ ⟨⟩
      refine exists_error_placed ?_ fun d => by split <;> rfl
      obtain ⟨d, hd, he⟩ | ⟨i, rfl⟩ := hid.faults_or_ok
      · exact ⟨d, by simp [hd], he⟩
      obtain ⟨d, hd, he⟩ | ⟨t, rfl⟩ := htype.faults_or_ok
      · exact ⟨d, by simp [hd], he⟩
      obtain ⟨d, hd, he⟩ | ⟨ps, rfl⟩ := hparams.faults_or_ok
      · exact ⟨d, by simp [hd], he⟩
      obtain ⟨d, hd, he⟩ | ⟨deps, rfl⟩ := hdepends.faults_or_ok
      · exact ⟨d, by simp [hd], he⟩
      exact (hnot i t ps deps rfl rfl rfl rfl).elim
  · exact fault rfl

theorem readEntries_refuses (index : Nat) (vs : List Value) :
    RefusesWithError (readEntries index vs) := by
  induction vs generalizing index with
  | nil => exact ok _
  | cons v rest ih =>
    have hhere := readEntry_refuses index v
    have hrest := ih (index + 1)
    unfold readEntries
    cases hv : readEntry index v with
    | error ds =>
      obtain ⟨d, hd, he⟩ := hhere ds hv
      exact error (List.mem_append_left _ hd) he
    | ok entry =>
      cases hvs : readEntries (index + 1) rest with
      | error ds =>
        obtain ⟨d, hd, he⟩ := hrest ds hvs
        exact error (List.mem_append_right _ hd) he
      | ok entries => exact ok _

theorem ofValue_refuses (v : Value) : RefusesWithError (ofValue v) := by
  unfold ofValue
  split
  · exact ok _
  · exact (readEntries_refuses 0 _).map _
  · dsimp only
    split
    · exact (readEntries_refuses 0 _).map _
    · exact ok _
    · exact fault rfl
    · exact fault rfl
  · exact fault rfl

theorem read_refuses (source : String) (format : Format) :
    RefusesWithError (read source format) := by
  unfold read
  split
  · exact ofValue_refuses _
  · exact fault rfl

end Flowline.Document
