import Flowline.Engine.Run
import Flowline.Proofs.Graph.Order
import Mathlib.Data.List.Basic

/-! Plans in order. The engine accepts a plan whose order lists every node once and leads no
dependency backwards; a node that depends on itself passes that check, though it can never be
started. -/
namespace Flowline.Plan

def ids (plan : Plan) : List String := plan.nodes.map (·.id)

/-- What the engine asks of a plan. -/
structure Accepted (plan : Plan) : Prop where
  nodup : plan.ids.Nodup
  known : ∀ n ∈ plan.nodes, ∀ d ∈ n.dependsOn, d ∈ plan.ids
  perm : plan.order.Perm plan.ids
  forward : ∀ n ∈ plan.nodes, ∀ d ∈ n.dependsOn, plan.order.idxOf d ≤ plan.order.idxOf n.id

/-- The order lists every node once and every dependency strictly before its dependents. -/
structure Ordered (plan : Plan) : Prop where
  nodup : plan.order.Nodup
  perm : plan.order.Perm plan.ids
  before : ∀ n ∈ plan.nodes, ∀ d ∈ n.dependsOn, plan.order.idxOf d < plan.order.idxOf n.id

theorem Ordered.accepted {plan : Plan} (h : plan.Ordered) : plan.Accepted where
  nodup := h.perm.nodup_iff.mp h.nodup
  known n hn d hd := h.perm.subset (List.idxOf_lt_length_iff.mp
    (Nat.lt_of_lt_of_le (h.before n hn d hd) List.idxOf_le_length))
  perm := h.perm
  forward n hn d hd := Nat.le_of_lt (h.before n hn d hd)

theorem Accepted.order_nodup {plan : Plan} (h : plan.Accepted) : plan.order.Nodup :=
  h.perm.nodup_iff.mpr h.nodup

theorem mem_ids {plan : Plan} {n : PlanNode} (hn : n ∈ plan.nodes) : n.id ∈ plan.ids :=
  List.mem_map_of_mem hn

theorem node?_mem {plan : Plan} {id : String} {n : PlanNode} (h : plan.node? id = some n) :
    n ∈ plan.nodes ∧ n.id = id :=
  ⟨List.mem_of_find?_eq_some h, by simpa using List.find?_some h⟩

theorem Accepted.eq_of_id_eq {plan : Plan} (h : plan.Accepted) {m n : PlanNode}
    (hm : m ∈ plan.nodes)
    (hn : n ∈ plan.nodes) (hid : m.id = n.id) : m = n :=
  List.inj_on_of_nodup_map h.nodup hm hn hid

theorem Accepted.node?_eq {plan : Plan} (h : plan.Accepted) {n : PlanNode} (hn : n ∈ plan.nodes) :
    plan.node? n.id = some n := by
  cases hf : plan.node? n.id with
  | none =>
    have hnone := List.find?_eq_none.mp hf n hn
    simp at hnone
  | some m =>
    obtain ⟨hm, hid⟩ := node?_mem hf
    rw [h.eq_of_id_eq hm hn hid]

/-- The nodes of a plan in its order. -/
def inOrder (plan : Plan) : List PlanNode := plan.order.filterMap plan.node?

theorem mem_nodes_of_mem_inOrder {plan : Plan} {n : PlanNode} (h : n ∈ plan.inOrder) :
    n ∈ plan.nodes := by
  obtain ⟨id, -, hid⟩ := List.mem_filterMap.mp h
  exact (node?_mem hid).1

/-- Every entry of the order has its node. -/
theorem Accepted.inOrder_ids {plan : Plan} (h : plan.Accepted) :
    plan.inOrder.map (·.id) = plan.order := by
  have hfound : ∀ id ∈ plan.order, (plan.node? id).map (·.id) = some id := by
    intro id hid
    obtain ⟨n, hn, rfl⟩ := List.mem_map.mp (h.perm.subset hid)
    rw [h.node?_eq hn, Option.map_some]
  rw [inOrder, List.map_filterMap, List.filterMap_congr hfound, List.filterMap_some]

/-- The graph that a plan is checked against. -/
def graph (plan : Plan) : Graph :=
  Graph.ofParts plan.ids (plan.nodes.flatMap fun n => n.dependsOn.map fun d => (d, n.id))

theorem mem_graph_edges {plan : Plan} {a b : String} :
    (a, b) ∈ plan.graph.edges ↔
      (∃ n ∈ plan.nodes, a ∈ n.dependsOn ∧ n.id = b) ∧ a ∈ plan.ids ∧ b ∈ plan.ids := by
  rw [graph, Graph.mem_edges_ofParts]
  simp only [List.mem_flatMap, List.mem_map, Prod.mk.injEq]
  constructor
  · rintro ⟨⟨n, hn, d, hd, rfl, rfl⟩, hab⟩
    exact ⟨⟨n, hn, hd, rfl⟩, hab⟩
  · rintro ⟨⟨n, hn, hd, rfl⟩, hab⟩
    exact ⟨⟨n, hn, a, hd, rfl, rfl⟩, hab⟩

theorem known_iff {plan : Plan} :
    (plan.nodes.findSome? fun n => (n.dependsOn.find? fun d => !plan.ids.contains d).map
      (PlanFault.unknownDependency n.id)) = none ↔
      ∀ n ∈ plan.nodes, ∀ d ∈ n.dependsOn, d ∈ plan.ids := by
  simp only [List.findSome?_eq_none_iff, Option.map_eq_none_iff, List.find?_eq_none,
    Bool.not_eq_true', Bool.not_eq_false, List.contains_iff_mem]

theorem size_graph_eq_iff {plan : Plan} :
    plan.graph.size = plan.nodes.length ↔ plan.ids.Nodup := by
  have hlen : plan.ids.length = plan.nodes.length := List.length_map _
  constructor
  · intro h
    exact nodup_of_length_distinct (by rw [hlen]; exact h)
  · intro h
    rw [Graph.size, graph, Graph.ofParts, distinct_eq_self h, hlen]

theorem checkOrder_graph_iff {plan : Plan} (hnd : plan.ids.Nodup)
    (hknown : ∀ n ∈ plan.nodes, ∀ d ∈ n.dependsOn, d ∈ plan.ids) :
    plan.graph.checkOrder plan.order = .ok () ↔ plan.order.Perm plan.ids ∧
      ∀ n ∈ plan.nodes, ∀ d ∈ n.dependsOn, plan.order.idxOf d ≤ plan.order.idxOf n.id := by
  have hids : plan.graph.ids = plan.ids := distinct_eq_self hnd
  rw [Graph.checkOrder_eq_ok_iff (hids ▸ hnd), hids]
  refine and_congr_right fun _ => ⟨fun h n hn d hd => ?_, fun h a _ b _ hab => ?_⟩
  · exact h d (hknown n hn d hd) n.id (mem_ids hn)
      (mem_graph_edges.mpr ⟨⟨n, hn, hd, rfl⟩, hknown n hn d hd, mem_ids hn⟩)
  · obtain ⟨⟨n, hn, hd, rfl⟩, -⟩ := mem_graph_edges.mp hab
    exact h n hn a hd

/-- The engine finds no fault with exactly the plans that are in order. -/
theorem planFault?_eq_none_iff {plan : Plan} : Engine.planFault? plan = none ↔ plan.Accepted := by
  have hstep : Engine.planFault? plan = none ↔
      (plan.nodes.findSome? fun n => (n.dependsOn.find? fun d => !plan.ids.contains d).map
        (PlanFault.unknownDependency n.id)) = none ∧
      plan.graph.size = plan.nodes.length ∧ plan.graph.checkOrder plan.order = .ok () := by
    unfold Engine.planFault?
    simp only [← ids.eq_def, ← graph.eq_def]
    cases plan.nodes.findSome? fun n => (n.dependsOn.find? fun d => !plan.ids.contains d).map
        (PlanFault.unknownDependency n.id) with
    | some fault => simp
    | none =>
      by_cases hsize : plan.graph.size = plan.nodes.length
      · cases plan.graph.checkOrder plan.order <;> simp [hsize]
      · simp [hsize]
  rw [hstep, known_iff, size_graph_eq_iff]
  constructor
  · rintro ⟨hknown, hnd, hcheck⟩
    obtain ⟨hperm, hforward⟩ := (checkOrder_graph_iff hnd hknown).mp hcheck
    exact ⟨hnd, hknown, hperm, hforward⟩
  · intro h
    exact ⟨h.known, h.nodup, (checkOrder_graph_iff h.nodup h.known).mpr ⟨h.perm, h.forward⟩⟩

/-- A run can be started when the plan is in order and some runner handles each of its types. -/
theorem startError?_eq_none_iff {runners : List Engine.Runner} {plan : Plan} :
    Engine.startError? runners plan = none ↔
      plan.Accepted ∧ ∀ n ∈ plan.nodes, ∃ r, Engine.select runners n.type = some r := by
  rw [← planFault?_eq_none_iff]
  unfold Engine.startError?
  cases Engine.planFault? plan with
  | some fault => simp
  | none => simp [Option.ne_none_iff_exists']

end Flowline.Plan
