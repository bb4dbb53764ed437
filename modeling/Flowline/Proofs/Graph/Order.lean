import Flowline.Proofs.Graph.Search
import Flowline.Proofs.Graph.Taking
import Mathlib.Data.List.Perm.Subperm

/-!
# Orders of execution

What the check of an order accepts, and what `topologicalOrder` yields: an order in which every edge
leads strictly forward, or a cycle that excludes one. The check also lets pass an edge from a node to
itself, which no order can lead forward.
-/
namespace Flowline.Graph

/-! ### The check of an order -/

theorem entryFault?_eq_none_iff {g : Graph} {seen order : List String} :
    g.entryFault? seen order = none ↔
      (∀ id ∈ order, id ∈ g.ids) ∧ order.Nodup ∧ ∀ id ∈ order, id ∉ seen := by
  induction order generalizing seen with
  | nil => simp [entryFault?]
  | cons id rest ih =>
    by_cases hid : id ∈ g.ids
    · by_cases hseen : id ∈ seen
      · simp [entryFault?, contains, hid, hseen]
      · have hstep : g.entryFault? seen (id :: rest) = g.entryFault? (id :: seen) rest := by
          simp [entryFault?, contains, hid, hseen]
        rw [hstep, ih]
        simp only [List.mem_cons, List.nodup_cons, not_or, forall_eq_or_imp]
        constructor
        · rintro ⟨hall, hnd, hnot⟩
          exact ⟨⟨hid, hall⟩, ⟨fun h => (hnot id h).1 rfl, hnd⟩, hseen, fun a ha => (hnot a ha).2⟩
        · rintro ⟨⟨-, hall⟩, ⟨hnew, hnd⟩, -, hnot⟩
          exact ⟨hall, hnd, fun a ha => ⟨fun h => hnew (h ▸ ha), hnot a ha⟩⟩
    · simp [entryFault?, contains, hid]

theorem reversedEdge?_eq_none_iff {g : Graph} {order : List String} :
    g.reversedEdge? order = none ↔
      ∀ a ∈ g.ids, ∀ b ∈ g.ids, (a, b) ∈ g.edges → order.idxOf a ≤ order.idxOf b := by
  simp only [reversedEdge?, List.findSome?_eq_none_iff, mem_successors, ite_eq_right_iff,
    reduceCtorEq, imp_false, Nat.not_lt, and_imp]

/-- An order is accepted if it lists every id once and leads no edge backwards. An edge from a node
to itself leads nowhere. -/
theorem checkOrder_eq_ok_iff {g : Graph} (hg : g.ids.Nodup) {order : List String} :
    g.checkOrder order = .ok () ↔ order.Perm g.ids ∧
      ∀ a ∈ g.ids, ∀ b ∈ g.ids, (a, b) ∈ g.edges → order.idxOf a ≤ order.idxOf b := by
  have hperm : (order.length = g.size ∧ g.entryFault? [] order = none) ↔ order.Perm g.ids := by
    rw [entryFault?_eq_none_iff]
    constructor
    · rintro ⟨hlen, hmem, hnd, -⟩
      exact (List.subperm_of_subset hnd hmem).perm_of_length_le (Nat.le_of_eq hlen.symm)
    · intro h
      exact ⟨h.length_eq, fun id hid => h.subset hid, h.nodup_iff.mpr hg, by simp⟩
  rw [← hperm, ← reversedEdge?_eq_none_iff]
  unfold checkOrder
  by_cases hlen : order.length = g.size
  · cases hb : g.entryFault? [] order with
    | some fault => simp [hlen]
    | none =>
      cases hr : g.reversedEdge? order with
      | some fault => simp [hlen]
      | none => simp [hlen]
  · simp [hlen]

/-! ### Topological orders -/

variable {g : Graph} {order : List String}

/-- Each node stands in the order once, nothing else does, and every edge leads strictly forward. -/
structure Topological (g : Graph) (order : List String) : Prop where
  nodup : order.Nodup
  mem_iff : ∀ id, id ∈ order ↔ id ∈ g.ids
  forward : ∀ a b, g.Leads a b → order.idxOf a < order.idxOf b

theorem Topological.perm (h : g.Topological order) (hg : g.WellFormed) : order.Perm g.ids :=
  (List.perm_ext_iff_of_nodup h.nodup hg.ids_nodup).mpr h.mem_iff

theorem topological_ofParts_iff {ids : List String} {edges : List (String × String)} :
    (ofParts ids edges).Topological order ↔ order.Nodup ∧ (∀ id, id ∈ order ↔ id ∈ ids) ∧
      ∀ a b, (a, b) ∈ edges → a ∈ ids → b ∈ ids → order.idxOf a < order.idxOf b := by
  have hids : ∀ id, id ∈ (ofParts ids edges).ids ↔ id ∈ ids := fun id => by
    rw [ofParts, mem_distinct]
  constructor
  · exact fun h => ⟨h.nodup, fun id => (h.mem_iff id).trans (hids id), fun a b hab ha hb =>
      h.forward a b (leads_ofParts.mpr ⟨hab, ha, hb⟩)⟩
  · rintro ⟨hnodup, hmem, hforward⟩
    refine ⟨hnodup, fun id => (hmem id).trans (hids id).symm, fun a b hab => ?_⟩
    obtain ⟨hab, ha, hb⟩ := leads_ofParts.mp hab
    exact hforward a b hab ha hb

theorem Topological.acyclic (h : g.Topological order) : g.Acyclic := by
  have hforward : ∀ a b, Relation.TransGen g.Leads a b → order.idxOf a < order.idxOf b := by
    intro a b hab
    induction hab with
    | single hab => exact h.forward _ _ hab
    | tail _ hbc ih => exact ih.trans (h.forward _ _ hbc)
  exact fun id hcycle => Nat.lt_irrefl _ (hforward id id hcycle)

/-- The order in which nodes are taken. -/
def takenOrder (g : Graph) : List String := ((Taking.initial g).run g).taken.reverse

theorem takenOrder_sound (hg : g.WellFormed) :
    ((Taking.initial g).run g).Sound g ∧ ((Taking.initial g).run g).queue = [] :=
  Taking.run_sound hg (Taking.sound_initial hg)

theorem takenOrder_nodup (hg : g.WellFormed) : g.takenOrder.Nodup :=
  List.nodup_reverse.mpr (List.nodup_append.mp (takenOrder_sound hg).1.nodup).2.1

/-- If all nodes were taken, they were taken in a topological order. -/
theorem takenOrder_topological_of_subset (hg : g.WellFormed) (hall : g.ids ⊆ g.takenOrder) :
    g.Topological g.takenOrder := by
  obtain ⟨hsound, -⟩ := takenOrder_sound hg
  refine ⟨takenOrder_nodup hg, fun id => ⟨fun hid => ?_, fun hid => hall hid⟩, fun a b hab => ?_⟩
  · exact hsound.known id (List.mem_append_right _ (List.mem_reverse.mp hid))
  · exact hsound.forward hg hab (List.mem_reverse.mp (hall hab.target))

theorem takenOrder_topological (hg : g.WellFormed) (hacyclic : g.Acyclic) :
    g.Topological g.takenOrder := by
  obtain ⟨hsound, hqueue⟩ := takenOrder_sound hg
  exact takenOrder_topological_of_subset hg fun id hid =>
    List.mem_reverse.mpr (hsound.mem_taken hg hqueue hacyclic hid)

/-- In a graph with a cycle some nodes are never taken. -/
theorem takenOrder_short (hg : g.WellFormed) (hcycle : ¬ g.Acyclic) :
    g.takenOrder.length < g.size := by
  obtain ⟨hsound, -⟩ := takenOrder_sound hg
  have hknown : g.takenOrder ⊆ g.ids := fun id hid =>
    hsound.known id (List.mem_append_right _ (List.mem_reverse.mp hid))
  by_contra hlong
  have hperm : g.takenOrder.Perm g.ids :=
    (List.subperm_of_subset (takenOrder_nodup hg) hknown).perm_of_length_le (Nat.not_lt.mp hlong)
  exact hcycle (takenOrder_topological_of_subset hg hperm.symm.subset).acyclic

theorem topologicalOrder_of_acyclic (hg : g.WellFormed) (hacyclic : g.Acyclic) :
    g.topologicalOrder = .ok g.takenOrder := by
  have hlength : g.takenOrder.length = g.size :=
    ((takenOrder_topological hg hacyclic).perm hg).length_eq
  simp only [topologicalOrder, ← takenOrder.eq_def, hlength, Nat.lt_irrefl, if_false]

theorem topologicalOrder_of_cyclic (hg : g.WellFormed) (hcycle : ¬ g.Acyclic) :
    ∃ path, g.findCycle = some path ∧ g.topologicalOrder = .error path := by
  obtain ⟨path, hpath⟩ := Option.ne_none_iff_exists'.mp (mt findCycle_eq_none_iff.mp hcycle)
  refine ⟨path, hpath, ?_⟩
  simp only [topologicalOrder, ← takenOrder.eq_def, takenOrder_short hg hcycle, if_true, hpath,
    Option.getD_some]

theorem topologicalOrder_eq_ok_iff (hg : g.WellFormed) :
    g.topologicalOrder = .ok order ↔ g.Acyclic ∧ order = g.takenOrder := by
  by_cases hacyclic : g.Acyclic
  · rw [topologicalOrder_of_acyclic hg hacyclic]
    simp [hacyclic, eq_comm]
  · obtain ⟨path, -, herror⟩ := topologicalOrder_of_cyclic hg hacyclic
    simp [herror, hacyclic]

/-- A topological order lists every id once, and every edge leads strictly forward in it. -/
theorem topologicalOrder_sound (hg : g.WellFormed) (h : g.topologicalOrder = .ok order) :
    order.Perm g.ids ∧ ∀ a b, (a, b) ∈ g.edges → b ∈ g.ids → order.idxOf a < order.idxOf b := by
  obtain ⟨hacyclic, rfl⟩ := (topologicalOrder_eq_ok_iff hg).mp h
  have htopological := takenOrder_topological hg hacyclic
  exact ⟨htopological.perm hg, fun a b hab hb =>
    htopological.forward a b (leads_iff.mpr ⟨hb, hab⟩)⟩

/-- A strict order passes the check. -/
theorem Topological.checkOrder_eq_ok (h : g.Topological order) (hg : g.WellFormed) :
    g.checkOrder order = .ok () :=
  (checkOrder_eq_ok_iff hg.ids_nodup).mpr ⟨h.perm hg, fun a _ b hb hab =>
    Nat.le_of_lt (h.forward a b (leads_iff.mpr ⟨hb, hab⟩))⟩

/-- Whatever ids and edges a graph is made of, no count of dependencies is lowered below zero while
nodes are taken, and the graph has an order exactly when no way along its edges leads back to where
it began. Its order lists each id once and leads every edge between known ids strictly forward, and
it passes the check; where there is no order, the fault is the cycle that the search finds. -/
theorem topologicalOrder_decides (ids : List String) (edges : List (String × String)) :
    (∀ t, Relation.ReflTransGen (Taking.Takes (ofParts ids edges))
        (Taking.initial (ofParts ids edges)) t → ∀ id queue, t.queue = id :: queue →
          ∀ x ∈ (ofParts ids edges).successors id, 0 < t.missing x) ∧
      ((∃ order, (ofParts ids edges).topologicalOrder = .ok order) ↔ (ofParts ids edges).Acyclic) ∧
      (∀ order, (ofParts ids edges).topologicalOrder = .ok order →
        order.Nodup ∧ (∀ id, id ∈ order ↔ id ∈ ids) ∧
        (∀ a b, (a, b) ∈ edges → a ∈ ids → b ∈ ids → order.idxOf a < order.idxOf b) ∧
        (ofParts ids edges).checkOrder order = .ok ()) ∧
      ∀ path, (ofParts ids edges).topologicalOrder = .error path →
        (ofParts ids edges).findCycle = some path := by
  have hg := wellFormed_ofParts ids edges
  refine ⟨fun t htakes id queue hqueue x hx => ?_, ?_, fun order horder => ?_,
    fun path hpath => ?_⟩
  · exact ((Taking.sound_initial hg).of_takes hg htakes).missing_pos hg hqueue hx
  · simp only [topologicalOrder_eq_ok_iff hg, exists_and_left, exists_eq, and_true]
  · obtain ⟨hacyclic, rfl⟩ := (topologicalOrder_eq_ok_iff hg).mp horder
    have htopological := takenOrder_topological hg hacyclic
    obtain ⟨hnodup, hmem, hforward⟩ := topological_ofParts_iff.mp htopological
    exact ⟨hnodup, hmem, hforward, htopological.checkOrder_eq_ok hg⟩
  · by_cases hacyclic : (ofParts ids edges).Acyclic
    · simp [topologicalOrder_of_acyclic hg hacyclic] at hpath
    · obtain ⟨path', hfound, herror⟩ := topologicalOrder_of_cyclic hg hacyclic
      rw [herror] at hpath
      cases hpath
      exact hfound

/-- Repeated ids and edges with an unknown end do no harm; an edge from a node to itself does. -/
theorem topologicalOrder_decides_triangle :
    (ofParts ["c", "a", "b", "a"] [("a", "b"), ("b", "c"), ("a", "c"), ("x", "a")]).Acyclic ∧
      ¬ (ofParts ["a"] [("a", "a")]).Acyclic := by
  refine ⟨(topologicalOrder_decides _ _).2.1.mp ⟨["a", "b", "c"], by decide +kernel⟩,
    fun hacyclic => ?_⟩
  obtain ⟨order, horder⟩ := (topologicalOrder_decides _ _).2.1.mpr hacyclic
  have herror : (ofParts ["a"] [("a", "a")]).topologicalOrder = .error ["a", "a"] := by
    decide +kernel
  simp [herror] at horder

/-! ### Accepted orders -/

/-- The edges between two different nodes. -/
def withoutLoops (edges : List (String × String)) : List (String × String) :=
  edges.filter fun e => e.1 ≠ e.2

theorem mem_withoutLoops {edges : List (String × String)} {a b : String} :
    (a, b) ∈ withoutLoops edges ↔ (a, b) ∈ edges ∧ a ≠ b := by
  simp [withoutLoops]

theorem exists_topological_iff (hg : g.WellFormed) :
    (∃ order, g.Topological order) ↔ ∃ order, g.topologicalOrder = .ok order := by
  constructor
  · rintro ⟨order, horder⟩
    exact ⟨_, topologicalOrder_of_acyclic hg horder.acyclic⟩
  · rintro ⟨order, horder⟩
    exact ⟨_, takenOrder_topological hg ((topologicalOrder_eq_ok_iff hg).mp horder).1⟩

/-- The accepted orders are the topological orders of the graph without its edges from a node to
itself. -/
theorem checkOrder_eq_ok_iff_topological {ids : List String} {edges : List (String × String)} :
    (ofParts ids edges).checkOrder order = .ok () ↔
      (ofParts ids (withoutLoops edges)).Topological order := by
  have hg := wellFormed_ofParts ids edges
  have hleads : ∀ a b, (ofParts ids (withoutLoops edges)).Leads a b ↔
      (ofParts ids edges).Leads a b ∧ a ≠ b := fun a b => by
    rw [leads_ofParts, leads_ofParts, mem_withoutLoops, and_right_comm]
  rw [checkOrder_eq_ok_iff hg.ids_nodup]
  constructor
  · rintro ⟨hperm, hforward⟩
    refine ⟨hperm.nodup_iff.mpr hg.ids_nodup, fun _ => hperm.mem_iff, fun a b hab => ?_⟩
    obtain ⟨hab, hne⟩ := (hleads a b).mp hab
    have hle := hforward a (hg.source hab) b hab.target (leads_iff.mp hab).2
    refine lt_of_le_of_ne hle fun heq => hne ?_
    exact (List.idxOf_inj (hperm.mem_iff.mpr (hg.source hab))).mp heq
  · intro h
    refine ⟨h.perm (wellFormed_ofParts _ _), fun a _ b hb hab => ?_⟩
    by_cases hne : a = b
    · rw [hne]
    · exact Nat.le_of_lt (h.forward a b ((hleads a b).mpr ⟨leads_iff.mpr ⟨hb, hab⟩, hne⟩))

/-- An order is accepted exactly if it lists each id once, nothing else, and leads every edge
between two different nodes strictly forward. Some order is accepted exactly if these edges admit
one; where no edge leads from a node to itself, that is if the graph has an order. -/
theorem checkOrder_decides (ids : List String) (edges : List (String × String)) :
    (∀ order, (ofParts ids edges).checkOrder order = .ok () ↔
      order.Nodup ∧ (∀ id, id ∈ order ↔ id ∈ ids) ∧
        ∀ a b, (a, b) ∈ edges → a ∈ ids → b ∈ ids → a ≠ b → order.idxOf a < order.idxOf b) ∧
      ((∃ order, (ofParts ids edges).checkOrder order = .ok ()) ↔
        ∃ order, (ofParts ids (withoutLoops edges)).topologicalOrder = .ok order) ∧
      ((∃ order, (ofParts ids edges).topologicalOrder = .ok order) ↔
        (∀ id ∈ ids, (id, id) ∉ edges) ∧
          ∃ order, (ofParts ids edges).checkOrder order = .ok ()) := by
  have hg := wellFormed_ofParts ids edges
  refine ⟨fun order => ?_, ?_, ?_⟩
  · rw [checkOrder_eq_ok_iff_topological, topological_ofParts_iff]
    simp only [mem_withoutLoops, and_imp]
    refine and_congr_right fun _ => and_congr_right fun _ => forall₂_congr fun a b => ?_
    exact ⟨fun h hab ha hb hne => h hab hne ha hb, fun h hab hne ha hb => h hab ha hb hne⟩
  · simp only [checkOrder_eq_ok_iff_topological]
    exact exists_topological_iff (wellFormed_ofParts _ _)
  · rw [← exists_topological_iff hg]
    constructor
    · rintro ⟨order, horder⟩
      refine ⟨fun id hid hloop => ?_, order, horder.checkOrder_eq_ok hg⟩
      exact horder.acyclic id (.single (leads_ofParts.mpr ⟨hloop, hid, hid⟩))
    · rintro ⟨hloops, order, horder⟩
      obtain ⟨hnodup, hmem, hforward⟩ :=
        topological_ofParts_iff.mp (checkOrder_eq_ok_iff_topological.mp horder)
      refine ⟨order, topological_ofParts_iff.mpr ⟨hnodup, hmem, fun a b hab ha hb => ?_⟩⟩
      have hne : a ≠ b := fun heq => hloops a ha (heq ▸ hab)
      exact hforward a b (mem_withoutLoops.mpr ⟨hab, hne⟩) ha hb

/-- A node that depends on itself can never be started, but an order is accepted for it. -/
theorem loop_accepted :
    (ofParts ["a"] [("a", "a")]).checkOrder ["a"] = .ok () ∧
      (ofParts ["a"] [("a", "a")]).Leads "a" "a" ∧
      ¬ (ofParts ["a"] [("a", "a")]).Topological ["a"] ∧
      (ofParts ["a"] [("a", "a")]).topologicalOrder = .error ["a", "a"] := by
  have hloop : (ofParts ["a"] [("a", "a")]).Leads "a" "a" :=
    leads_ofParts.mpr ⟨by decide, by decide, by decide⟩
  exact ⟨by decide, hloop, fun h => h.acyclic "a" (.single hloop), by decide +kernel⟩

end Flowline.Graph
