import Flowline.Proofs.Data.Record
import Flowline.Proofs.Plan.Compile

/-!
# Plans built in a given order

A plan is built from the declarations as they are, and its order is checked against their graph,
which counts a repeated id once, drops the edges of unknown dependencies and lets an edge lead from
a node to itself. Hence what is built is in order exactly when ids are distinct and every dependency
is another declared node; the engine, which checks the graph in the same way, lets a node that
depends on itself pass.
-/
namespace Flowline.Plan

variable {catalog : Catalog} {doc : Document} {plan : Plan} {report : Report}
  {order : List String} {now : Moment}

/-! ### What is kept of a declaration -/

theorem buildNode_keeps (catalog : Catalog) (i : Nat) (d : Declaration) :
    Yields (fun _ => True) (buildNode catalog i d) fun part =>
      ∀ p, part = .ok p → p.1.id = d.id ∧ p.1.dependsOn = d.dependencies := by
  unfold buildNode
  cases catalog.get? d.type with
  | none => exact .pure fun _ h => nomatch h
  | some c =>
    have hany : ∀ {α : Type} (x : StateM Resolver α), Yields (fun _ => True) x fun _ => True :=
      fun _ _ _ => ⟨trivial, trivial⟩
    refine .bind (hany _) fun shapes _ => .bind (hany _) fun output _ => .pure ?_
    rintro p ⟨⟩
    exact ⟨rfl, rfl⟩

/-- Nodes have the ids and the dependencies of their declarations, in turn. -/
theorem buildNodes_keeps {parts : List (PlanNode × List PlanEdge)}
    (h : buildNodes catalog doc = .ok parts) :
    parts.map (fun p => (p.1.id, p.1.dependsOn)) =
      doc.nodes.map fun d => (d.id, d.dependencies) := by
  have hbuilt := (Yields.mapM (fun p (_ : p ∈ doc.nodes.zipIdx) => buildNode_keeps catalog p.2 p.1)
    { catalog, nodes := doc.nodes } trivial).1
  have hparts := forall₂_of_mapM h
  rw [← List.zipIdx_map_fst 0 doc.nodes, List.map_map]
  generalize ((doc.nodes.zipIdx.mapM fun p => buildNode catalog p.2 p.1).run _).1 = built
    at hbuilt hparts
  generalize doc.nodes.zipIdx = declared at hbuilt
  clear h
  induction hbuilt generalizing parts with
  | nil =>
    cases hparts
    rfl
  | cons hkeeps _ ih =>
    obtain _ | ⟨hpart, hrest⟩ := hparts
    obtain ⟨hid, hdeps⟩ := hkeeps _ hpart
    rw [List.map_cons, List.map_cons, ih hrest, hid, hdeps]
    rfl

/-! ### Orders of what is built -/

/-- Ids are distinct, and dependencies are among them. -/
structure Resolved (doc : Document) : Prop where
  nodup : (doc.nodes.map (·.id)).Nodup
  known : ∀ d ∈ doc.nodes, ∀ target ∈ d.dependsOn, target ∈ doc.nodes.map (·.id)

theorem build_keeps (h : build catalog doc report order now = .ok plan) :
    plan.order = order ∧ plan.nodes.map (fun n => (n.id, n.dependsOn)) =
      doc.nodes.map fun d => (d.id, d.dependencies) := by
  obtain ⟨-, parts, hparts, horder, hnodes, -⟩ := build_parts h
  refine ⟨horder, ?_⟩
  rw [hnodes, List.map_map]
  exact buildNodes_keeps hparts

theorem build_ids (h : build catalog doc report order now = .ok plan) :
    plan.ids = doc.nodes.map (·.id) := by
  have hmap := congrArg (List.map Prod.fst) (build_keeps h).2
  rw [List.map_map, List.map_map] at hmap
  exact hmap

/-- What holds of the dependencies of all nodes holds of those of all declarations. -/
theorem build_forall (h : build catalog doc report order now = .ok plan)
    (p : String → String → Prop) :
    (∀ n ∈ plan.nodes, ∀ target ∈ n.dependsOn, p n.id target) ↔
      ∀ d ∈ doc.nodes, ∀ target ∈ d.dependsOn, p d.id target := by
  have hnodes : (∀ n ∈ plan.nodes, ∀ target ∈ n.dependsOn, p n.id target) ↔
      ∀ q ∈ plan.nodes.map (fun n => (n.id, n.dependsOn)), ∀ target ∈ q.2, p q.1 target := by
    rw [List.forall_mem_map]
  rw [hnodes, (build_keeps h).2, List.forall_mem_map]
  simp only [Declaration.dependencies, mem_distinct]

/-- The order of a plan lists every id once, and every dependency on another node before it. -/
theorem build_order (h : build catalog doc report order now = .ok plan) :
    plan.order.Perm (distinct plan.ids) ∧
      ∀ n ∈ plan.nodes, ∀ target ∈ n.dependsOn, target ∈ plan.ids → target ≠ n.id →
        plan.order.idxOf target < plan.order.idxOf n.id := by
  obtain ⟨hcheck, -⟩ := build_parts h
  obtain ⟨hperm, hforward⟩ := (Graph.checkOrder_eq_ok_iff (nodup_distinct _)).mp hcheck
  rw [← (build_keeps h).1] at hperm hforward
  have hids : (Graph.ofDeclarations doc.nodes).ids = distinct plan.ids :=
    congrArg distinct (build_ids h).symm
  rw [hids] at hperm
  refine ⟨hperm, (build_forall h fun id target => target ∈ plan.ids → target ≠ id →
    plan.order.idxOf target < plan.order.idxOf id).mpr fun d hd target ht hknown hne => ?_⟩
  have hd' : d.id ∈ doc.nodes.map (·.id) := List.mem_map_of_mem hd
  have hedge : (target, d.id) ∈ (Graph.ofDeclarations doc.nodes).edges := by
    refine Graph.mem_edges_ofParts.mpr ⟨?_, build_ids h ▸ hknown, hd'⟩
    exact List.mem_flatMap.mpr ⟨d, hd, List.mem_map_of_mem (mem_distinct.mpr ht)⟩
  have hle := hforward target (hids ▸ mem_distinct.mpr hknown) d.id (mem_distinct.mpr hd') hedge
  have htarget : target ∈ plan.order := hperm.symm.subset (mem_distinct.mpr hknown)
  exact lt_of_le_of_ne hle fun heq => hne ((List.idxOf_inj htarget).mp heq)

theorem not_ordered_of_self (h : build catalog doc report order now = .ok plan) {d : Declaration}
    (hd : d ∈ doc.nodes) (hself : d.id ∈ d.dependsOn) : ¬ plan.Ordered := fun ho =>
  Nat.lt_irrefl _ ((build_forall h fun id target =>
    plan.order.idxOf target < plan.order.idxOf id).mp ho.before d hd d.id hself)

/-- What is built is accepted by the engine exactly when its document is resolved, and it is in
order exactly when, moreover, no declaration depends on itself. Its order always lists each id once,
and every known dependency on another node before that node. -/
theorem build_accepted_iff (h : build catalog doc report order now = .ok plan) :
    (Engine.planFault? plan = none ↔ Resolved doc) ∧
      (plan.Ordered ↔ Resolved doc ∧ ∀ d ∈ doc.nodes, d.id ∉ d.dependsOn) ∧
      plan.order.Perm (distinct plan.ids) ∧
      ∀ n ∈ plan.nodes, ∀ target ∈ n.dependsOn, target ∈ plan.ids → target ≠ n.id →
        plan.order.idxOf target < plan.order.idxOf n.id := by
  obtain ⟨hperm, hbefore⟩ := build_order h
  have hids := build_ids h
  have hknown_iff := build_forall h fun _ target => target ∈ plan.ids
  have haccepted : plan.Accepted ↔ Resolved doc := by
    constructor
    · intro ha
      exact ⟨hids ▸ ha.nodup, hids ▸ hknown_iff.mp ha.known⟩
    · intro hr
      have hnodup : plan.ids.Nodup := hids.symm ▸ hr.nodup
      have hknown : ∀ n ∈ plan.nodes, ∀ target ∈ n.dependsOn, target ∈ plan.ids :=
        hknown_iff.mpr (hids.symm ▸ hr.known)
      refine ⟨hnodup, hknown, distinct_eq_self hnodup ▸ hperm, fun n hn target ht => ?_⟩
      by_cases heq : target = n.id
      · rw [heq]
      · exact Nat.le_of_lt (hbefore n hn target ht (hknown n hn target ht) heq)
  refine ⟨planFault?_eq_none_iff.trans haccepted, ?_, hperm, hbefore⟩
  constructor
  · intro ho
    exact ⟨haccepted.mp ho.accepted, fun d hd hself => not_ordered_of_self h hd hself ho⟩
  · rintro ⟨hr, hself⟩
    have ha := haccepted.mpr hr
    have hne : ∀ n ∈ plan.nodes, ∀ target ∈ n.dependsOn, target ≠ n.id :=
      (build_forall h fun id target => target ≠ id).mpr fun d hd target ht heq =>
        hself d hd (heq ▸ ht)
    exact ⟨ha.order_nodup, ha.perm, fun n hn target ht =>
      hbefore n hn target ht (ha.known n hn target ht) (hne n hn target ht)⟩

theorem exists_of_any {ε α : Type} {x : Except ε α} {p : α → Prop} [DecidablePred p]
    (h : x.toOption.any (fun a => decide (p a)) = true) : ∃ a, x = .ok a ∧ p a := by
  cases x with
  | ok a => exact ⟨a, rfl, of_decide_eq_true h⟩
  | error fault => cases h

/-- A document of nodes without parameters. -/
def bare (nodes : List (String × List String)) : Document :=
  { nodes := nodes.map fun n => ⟨n.1, "InlineDataNode", [], n.2⟩ }

theorem bare_ordered : ∃ plan,
    build .builtin (bare [("a", []), ("b", ["a", "a"])]) ⟨[]⟩ ["a", "b"] default = .ok plan ∧
      Engine.planFault? plan = none ∧ plan.Ordered := by
  obtain ⟨plan, h⟩ : ∃ plan, build .builtin (bare [("a", []), ("b", ["a", "a"])]) ⟨[]⟩ ["a", "b"]
    default = .ok plan := exists_of_isSome (by decide +kernel)
  have hresolved : Resolved (bare [("a", []), ("b", ["a", "a"])]) :=
    ⟨by decide, by decide⟩
  exact ⟨plan, h, (build_accepted_iff h).1.mpr hresolved,
    (build_accepted_iff h).2.1.mpr ⟨hresolved, by decide⟩⟩

/-- What is built of a node that depends on itself, of one that depends on an unknown node, and of
two nodes with one id. -/
theorem bare_disordered :
    (∃ plan, build .builtin (bare [("a", ["a"])]) ⟨[]⟩ ["a"] default = .ok plan ∧
      Engine.planFault? plan = none ∧ ¬ plan.Ordered) ∧
    (∃ plan, build .builtin (bare [("a", ["b"])]) ⟨[]⟩ ["a"] default = .ok plan ∧
      Engine.planFault? plan = some (.unknownDependency "a" "b")) ∧
    ∃ plan, build .builtin (bare [("a", []), ("a", [])]) ⟨[]⟩ ["a"] default = .ok plan ∧
      Engine.planFault? plan = some .duplicateIds ∧ ¬ plan.order.Perm plan.ids := by
  refine ⟨?_, exists_of_any (by decide +kernel), ?_⟩
  · obtain ⟨plan, h, hfault⟩ : ∃ plan, build .builtin (bare [("a", ["a"])]) ⟨[]⟩ ["a"] default =
        .ok plan ∧ Engine.planFault? plan = none := exists_of_any (by decide +kernel)
    exact ⟨plan, h, hfault, not_ordered_of_self h (d := ⟨"a", "InlineDataNode", [], ["a"]⟩)
      (by simp [bare]) (by simp)⟩
  · exact exists_of_any (by decide +kernel)

end Flowline.Plan
