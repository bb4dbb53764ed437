import Flowline.Validation.Basic
import Mathlib.Data.List.Nodup

/-! What a pipeline is like in whose structure no error was found. -/
namespace Flowline

theorem exists_mem_zipIdx {α : Type} {a : α} {l : List α} (h : a ∈ l) : ∃ i, (a, i) ∈ l.zipIdx := by
  rw [← List.zipIdx_map_fst 0 l] at h
  obtain ⟨⟨b, i⟩, hi, rfl⟩ := List.mem_map.mp h
  exact ⟨i, hi⟩

def NoErrors (ds : List Diagnostic) : Prop := ∀ d ∈ ds, d.isError = false

theorem noErrors_append {ds es : List Diagnostic} :
    NoErrors (ds ++ es) ↔ NoErrors ds ∧ NoErrors es := List.forall_mem_append

theorem noErrors_of_eq_nil {ds : List Diagnostic} (h : ds = []) : NoErrors ds :=
  h ▸ List.forall_mem_nil _

theorem NoErrors.of_mem_flatMap {α : Type} {l : List α} {f : α → List Diagnostic}
    (h : NoErrors (l.flatMap f)) {a : α} (ha : a ∈ l) : NoErrors (f a) :=
  fun d hd => h d (List.mem_flatMap.mpr ⟨a, ha, hd⟩)

theorem isValid_iff {ds : List Diagnostic} : (Report.mk ds).isValid = true ↔ NoErrors ds := by
  simp [Report.isValid, NoErrors]

/-- Ids are unique, types are known, and so are the nodes that are depended on. -/
structure Structured (catalog : Catalog) (doc : Document) : Prop where
  nodup : (doc.nodes.map (·.id)).Nodup
  known : ∀ n ∈ doc.nodes, ∃ c, catalog.get? n.type = some c
  targets : ∀ n ∈ doc.nodes, ∀ d ∈ n.dependsOn, d ∈ doc.nodes.map (·.id)

namespace Validation

theorem idFaults_noErrors {i : Nat} {seen : List String} {nodes : List Declaration}
    (h : NoErrors (idFaults i seen nodes)) :
    (nodes.map (·.id)).Nodup ∧ ∀ n ∈ nodes, n.id ∉ seen := by
  induction nodes generalizing i seen with
  | nil => simp
  | cons n nodes ih =>
    obtain ⟨hhere, hrest⟩ := noErrors_append.mp h
    obtain ⟨hnodup, hnew⟩ := ih hrest
    have hn : n.id ∉ seen := by
      intro hmem
      have herror := (noErrors_append.mp hhere).1
        (((Finding.duplicateId n.id).report.atNode n.id).atLocation (nodePlace i)) (by simp [hmem])
      cases herror
    refine ⟨List.nodup_cons.mpr ⟨fun hmem => ?_, hnodup⟩, ?_⟩
    · obtain ⟨m, hm, hid⟩ := List.mem_map.mp hmem
      exact hnew m hm (by simp [hid])
    · rintro m (_ | ⟨_, hm⟩)
      · exact hn
      · exact fun hmem => hnew m hm (List.mem_cons_of_mem _ hmem)

/-- A repeated target is only warned of; it was looked at when it came first. -/
theorem targetFaults_noErrors {ids : List String} {i j : Nat} {n : Declaration}
    {seen targets : List String} (h : NoErrors (targetFaults ids i n j seen targets)) :
    ∀ d ∈ targets, d ∈ seen ∨ d ∈ ids := by
  induction targets generalizing j seen with
  | nil => simp
  | cons t targets ih =>
    obtain ⟨hhere, hrest⟩ := noErrors_append.mp h
    have ht : t ∈ seen ∨ t ∈ ids := by
      by_contra hnot
      obtain ⟨hseen, hids⟩ := not_or.mp hnot
      have herror := hhere (((Finding.unknownDependency n.id t).report.atNode n.id).atField
        (nodePlace i ++ s!".depends_on[{j}]")) (by simp [hseen, hids])
      cases herror
    rintro d (_ | ⟨_, hd⟩)
    · exact ht
    · rcases ih hrest d hd with hmem | hmem
      · rcases List.mem_cons.mp hmem with rfl | hmem
        · exact ht
        · exact Or.inl hmem
      · exact Or.inr hmem

theorem nodeFaults_noErrors {catalog : Catalog} {ids : List String} {i : Nat} {n : Declaration}
    (h : NoErrors (nodeFaults catalog ids i n)) :
    (∃ c, catalog.get? n.type = some c) ∧ ∀ d ∈ n.dependsOn, d ∈ ids := by
  unfold nodeFaults at h
  split at h
  · rename_i hknown
    refine ⟨Option.isSome_iff_exists.mp hknown, fun d hd => ?_⟩
    exact (targetFaults_noErrors h d hd).resolve_left (by simp)
  · cases h _ (List.mem_singleton_self _)

theorem structured_of_noErrors {catalog : Catalog} {doc : Document}
    (h : NoErrors (structureFaults catalog doc)) : Structured catalog doc := by
  unfold structureFaults at h
  split at h
  · cases h _ (List.mem_singleton_self _)
  · obtain ⟨hids, hnodes⟩ := noErrors_append.mp h
    have hnode : ∀ n ∈ doc.nodes, (∃ c, catalog.get? n.type = some c) ∧
        ∀ d ∈ n.dependsOn, d ∈ doc.nodes.map (·.id) := by
      intro n hn
      obtain ⟨i, hi⟩ := exists_mem_zipIdx hn
      exact nodeFaults_noErrors (hnodes.of_mem_flatMap hi)
    exact ⟨(idFaults_noErrors hids).1, fun n hn => (hnode n hn).1, fun n hn => (hnode n hn).2⟩

theorem semanticFaults_noErrors {catalog : Catalog} {doc : Document}
    (h : NoErrors (semanticFaults catalog doc)) : Structured catalog doc ∧
      NoErrors (allParameterFaults catalog (untyped catalog doc) doc.nodes) := by
  unfold semanticFaults at h
  dsimp only at h
  split at h
  · rename_i hempty
    rw [structureFaults, if_pos hempty] at h
    cases h _ (List.mem_singleton_self _)
  · obtain ⟨hstructure, hparams⟩ := noErrors_append.mp h
    exact ⟨structured_of_noErrors hstructure, hparams⟩

end Validation
end Flowline
