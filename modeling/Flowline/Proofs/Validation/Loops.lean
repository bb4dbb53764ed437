import Flowline.Proofs.Catalog.Answers
import Flowline.Proofs.Validation.Structure
import Flowline.Validation.Basic

/-!
# Inputs that inherit from themselves

On a cycle of nodes that inherit their inputs nothing is known about the columns. However often a
resolver is asked and in whatever order, it comes to an answer, and the schema of such a node and of
every node that inherits from one is open; so no column of such an input is reported as missing.
-/
namespace Flowline.Validation

variable {catalog : Catalog} {nodes : List Declaration} {c : Contract} {n : Declaration}

/-! ### Offers -/

/-- An offer stays closed only while no accepted input is open. -/
theorem closed_foldl_add (inputs : List ((String × Schema) × Nat)) (o : Offer) :
    (inputs.foldl (fun o ((producer, produced), i) => o.add c n i producer produced) o).closed =
        true ↔ o.closed = true ∧
      ∀ p ∈ inputs, c.input.accepts p.1.2.shape = true → p.1.2.isOpen = false := by
  induction inputs generalizing o with
  | nil => simp
  | cons p inputs ih =>
    rw [List.foldl_cons, ih, List.forall_mem_cons, ← and_assoc]
    refine and_congr_left fun _ => ?_
    unfold Offer.add
    by_cases haccepts : c.input.accepts p.1.2.shape = true
    · simp [haccepts]
    · simp [haccepts]

theorem closed_offer {inputs : List (String × Schema)} : (offer c n inputs).closed = true ↔
    ∀ p ∈ inputs, c.input.accepts p.2.shape = true → p.2.isOpen = false := by
  unfold offer
  rw [closed_foldl_add]
  constructor
  · intro h p hp
    obtain ⟨i, hi⟩ := exists_mem_zipIdx hp
    exact h.2 (p, i) hi
  · intro h
    exact ⟨rfl, fun p hp => h p.1 (List.fst_mem_of_mem_zipIdx hp)⟩

/-- The faults of an offer are about shapes. -/
theorem code_foldl_add (inputs : List ((String × Schema) × Nat)) {o : Offer}
    (ho : ∀ d ∈ o.faults, d.code = "E303") :
    ∀ d ∈ (inputs.foldl (fun o ((producer, produced), i) =>
      o.add c n i producer produced) o).faults, d.code = "E303" := by
  induction inputs generalizing o with
  | nil => exact ho
  | cons p inputs ih =>
    obtain ⟨⟨producer, produced⟩, i⟩ := p
    rw [List.foldl_cons]
    refine ih ?_
    dsimp only [Offer.add]
    split
    · exact ho
    · exact List.forall_mem_append.mpr ⟨ho, List.forall_mem_singleton.mpr rfl⟩

/-- Columns are reported as missing at the node that requires them, and only when no input that it
accepts is open. -/
theorem of_missingColumns {inputs : List (String × Schema)} {d : Diagnostic}
    (hd : d ∈ inputFaults c n inputs) (hcode : d.code = "E304") : d.node = some n.id ∧
      ∀ p ∈ inputs, c.input.accepts p.2.shape = true → p.2.isOpen = false := by
  unfold inputFaults at hd
  dsimp only at hd
  rcases List.mem_append.mp hd with hd | hd
  · rcases List.mem_append.mp hd with hd | hd
    · split at hd
      · cases hd
      · obtain rfl := List.mem_singleton.mp hd
        exact absurd (show "E301" = "E304" from hcode) (by decide)
    · rw [code_foldl_add inputs.zipIdx (o := {}) nofun d hd] at hcode
      exact absurd hcode (by decide)
  · unfold columnFaults at hd
    dsimp only at hd
    split at hd
    · cases hd
    · rename_i hopen
      obtain rfl := List.mem_singleton.mp hd
      simp only [Bool.or_eq_true, not_or, Bool.not_eq_true', Bool.not_eq_false] at hopen
      exact ⟨rfl, closed_offer.mp hopen.1.1⟩

/-! ### Reports on a document -/

/-- The report is about the node, and none of the inputs that the node accepts inherits from
itself. -/
structure OfKnownInputs (catalog : Catalog) (nodes : List Declaration) (n : Declaration)
    (d : Diagnostic) : Prop where
  node : d.node = some n.id
  inputs : ∀ c, catalog.get? n.type = some c → ∀ id ∈ n.dependencies,
    ∀ m k, catalog.declared? nodes id = some (m, k) →
      c.input.accepts (k.output m.params).shape = true → ¬ catalog.Loops nodes id

theorem compatibilityFaults_yields_known (n : Declaration) :
    Yields (Resolver.RemembersSuitable catalog nodes) (compatibilityFaults catalog n)
      fun ds => ∀ d ∈ ds, d.code = "E304" → OfKnownInputs catalog nodes n d := by
  unfold compatibilityFaults
  cases hc : catalog.get? n.type with
  | none => exact .pure nofun
  | some c =>
    dsimp only
    by_cases hsource : c.isSource = true
    · rw [if_pos hsource]
      refine .pure fun d hd hcode => ?_
      split at hd
      · cases hd
      · obtain rfl := List.mem_singleton.mp hd
        exact absurd (show "E302" = "E304" from hcode) (by decide)
    · rw [if_neg hsource]
      refine .bind (Resolver.resolveAll_yields_suitable _) fun schemas hsuits => .pure ?_
      intro d hd hcode
      obtain ⟨hnode, hclosed⟩ := of_missingColumns hd hcode
      refine ⟨hnode, fun k hk id hid m k' hdecl haccepts hloops => ?_⟩
      obtain rfl : c = k := Option.some.inj (hc.symm.trans hk)
      obtain ⟨s, hs, hsuit⟩ := exists_mem_zip hsuits hid
      rw [← hsuit.shape m k' hdecl] at haccepts
      have hopen := hsuit.isOpen hloops
      rw [hclosed (id, s) hs haccepts] at hopen
      cases hopen

/-- For any document and catalog, every call of a resolver comes to its end; nodes that inherit from
themselves, or from such nodes, have open schemas, whatever was asked before; and no column is
reported as missing at a node that accepts such a node for an input. -/
theorem resolve_cycleSafe (catalog : Catalog) (doc : Document) :
    (∀ ids, ∃ r, Resolver.Answers [] { catalog, nodes := doc.nodes } ids
      ((Resolver.resolveAll ids).run { catalog, nodes := doc.nodes }).1 r) ∧
    (∀ asked id, catalog.Loops doc.nodes id →
      (Resolver.answer catalog doc asked id).isOpen = true) ∧
    ∀ d ∈ allCompatibilityFaults catalog doc, d.code = "E304" →
      ∃ n ∈ doc.nodes, OfKnownInputs catalog doc.nodes n d := by
  refine ⟨fun ids => ⟨_, Resolver.answers_resolveAll ids _⟩, fun asked id hloops => ?_,
    fun d hd hcode => ?_⟩
  · have hasked := (Resolver.resolveAll_yields_suitable asked _
      (Resolver.remembersSuitable_initial catalog doc.nodes)).2
    have hsuits := (Resolver.answers_resolve id _).suits hasked
    exact ((List.forall₂_cons.mp hsuits.2).1.1) hloops
  · have hfaults := (Yields.mapM (fun n (_ : n ∈ doc.nodes) => compatibilityFaults_yields_known n) _
      (Resolver.remembersSuitable_initial catalog doc.nodes)).1
    obtain ⟨ds, hds, hd⟩ := List.mem_flatten.mp hd
    obtain ⟨n, hn, hknown⟩ := exists_mem_zip hfaults.flip hds
    exact ⟨n, (List.of_mem_zip hn).2, hknown d hd hcode⟩

/-- Two averages of each other, and one of the first. -/
def roundAveragesDocument : Document where
  nodes := [⟨"slow", "IndicatorNode", [("indicator", .str "SMA"), ("period", .int 30)], ["fast"]⟩,
    ⟨"fast", "IndicatorNode", [("indicator", .str "SMA"), ("period", .int 10)], ["slow"]⟩,
    ⟨"last", "IndicatorNode", [("indicator", .str "SMA"), ("period", .int 5)], ["slow"]⟩]

theorem roundAverages_known : Catalog.builtin.Loops roundAveragesDocument.nodes "last" ∧
    (Resolver.answer Catalog.builtin roundAveragesDocument ["fast", "last"] "last").isOpen = true ∧
    ∀ d ∈ allCompatibilityFaults Catalog.builtin roundAveragesDocument, d.code ≠ "E304" := by
  have hsafe := resolve_cycleSafe Catalog.builtin roundAveragesDocument
  have hslow : Catalog.builtin.Inherits roundAveragesDocument.nodes "slow" "fast" :=
    ⟨_, _, rfl, rfl, List.mem_singleton_self _⟩
  have hfast : Catalog.builtin.Inherits roundAveragesDocument.nodes "fast" "slow" :=
    ⟨_, _, rfl, rfl, List.mem_singleton_self _⟩
  have hlast : Catalog.builtin.Inherits roundAveragesDocument.nodes "last" "slow" :=
    ⟨_, _, rfl, rfl, List.mem_singleton_self _⟩
  have hround : Relation.TransGen (Catalog.builtin.Inherits roundAveragesDocument.nodes)
      "slow" "slow" := .head hslow (.single hfast)
  have hloops : Catalog.builtin.Loops roundAveragesDocument.nodes "last" :=
    ⟨"slow", .single hlast, hround⟩
  refine ⟨hloops, hsafe.2.1 _ _ hloops, fun d hd hcode => ?_⟩
  obtain ⟨n, hn, hknown⟩ := hsafe.2.2 d hd hcode
  simp only [roundAveragesDocument, List.mem_cons, List.not_mem_nil, or_false] at hn
  obtain rfl | rfl | rfl := hn
  · exact hknown.inputs _ rfl "fast" (List.mem_singleton_self _) _ _ rfl rfl
      ⟨"slow", .single hfast, hround⟩
  · exact hknown.inputs _ rfl "slow" (List.mem_singleton_self _) _ _ rfl rfl ⟨"slow", .refl, hround⟩
  · exact hknown.inputs _ rfl "slow" (List.mem_singleton_self _) _ _ rfl rfl ⟨"slow", .refl, hround⟩

end Flowline.Validation
