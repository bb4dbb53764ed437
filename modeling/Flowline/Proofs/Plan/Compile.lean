import Flowline.Plan.Compile
import Flowline.Proofs.Catalog.Resolve
import Flowline.Proofs.Engine.Loop
import Flowline.Proofs.Validation.Structure

/-!
# Compiled plans

What compiles is a structured document without cycles. Its plan has one node for each declaration
and one edge for each dependency, in an order of execution.
-/
namespace Flowline.Plan

variable {catalog : Catalog} {doc : Document} {plan : Plan}

/-! ### Building nodes -/

/-- The plan node of a declaration at a position. -/
def nodeOf (catalog : Catalog) (nodes : List Declaration) (d : Declaration) (i : Nat) : PlanNode :=
  let c := (catalog.get? d.type).getD default
  { id := d.id, type := d.type, backend := c.backend, params := d.params
    input := c.input.resolve d.params, output := catalog.schemaOf nodes d.id, index := i
    dependsOn := d.dependencies, description := c.description }

/-- The edges into a declaration. -/
def edgesInto (catalog : Catalog) (nodes : List Declaration) (d : Declaration) : List PlanEdge :=
  d.dependencies.map fun source => ⟨source, d.id, edgeKind, (catalog.schemaOf nodes source).shape⟩

theorem buildNode_yields {nodes : List Declaration} {rank : String → Nat} (hr : Ranked nodes rank)
    {d : Declaration} (hd : ∃ c, catalog.get? d.type = some c) (i : Nat) :
    Yields (Resolver.Remembers catalog nodes) (buildNode catalog i d)
      (· = .ok (nodeOf catalog nodes d i, edgesInto catalog nodes d)) := by
  obtain ⟨c, hc⟩ := hd
  unfold buildNode
  rw [hc]
  refine .bind (Resolver.resolveAll_yields hr _) fun shapes hshapes => ?_
  refine .bind (Resolver.resolve_yields hr _) fun output houtput => .pure ?_
  have hzip : d.dependencies.zip shapes =
      d.dependencies.map fun source => (source, catalog.schemaOf nodes source) := by
    rw [hshapes]
    simpa using List.zip_map' (f := fun s : String => s) (g := catalog.schemaOf nodes)
      (l := d.dependencies)
  have hedges : (d.dependencies.zip shapes).map (fun p =>
      PlanEdge.mk p.1 d.id edgeKind p.2.shape) = edgesInto catalog nodes d := by
    rw [hzip, List.map_map]
    rfl
  rw [houtput, nodeOf, hc]
  exact congrArg (fun edges => Except.ok (_, edges)) hedges

theorem buildNodes_eq {rank : String → Nat} (hr : Ranked doc.nodes rank)
    (hknown : ∀ d ∈ doc.nodes, ∃ c, catalog.get? d.type = some c) :
    buildNodes catalog doc = .ok (doc.nodes.zipIdx.map fun p =>
      (nodeOf catalog doc.nodes p.1 p.2, edgesInto catalog doc.nodes p.1)) := by
  have hnode : ∀ p ∈ doc.nodes.zipIdx, Yields (Resolver.Remembers catalog doc.nodes)
      (buildNode catalog p.2 p.1)
      (· = .ok (nodeOf catalog doc.nodes p.1 p.2, edgesInto catalog doc.nodes p.1)) :=
    fun p hp => buildNode_yields hr (hknown _ (List.fst_mem_of_mem_zipIdx hp)) _
  have hall := (Yields.mapM_eq hnode _ (Resolver.remembers_initial catalog doc.nodes)).1
  unfold buildNodes
  dsimp only
  rw [hall, List.mapM_map]
  exact List.mapM_pure

/-! ### What compiles -/

structure Compiled (catalog : Catalog) (doc : Document) (plan : Plan) : Prop where
  structured : Structured catalog doc
  parameters : NoErrors (Validation.allParameterFaults catalog (Validation.untyped catalog doc)
    doc.nodes)
  compatible : NoErrors (Validation.allCompatibilityFaults catalog doc)
  order : (Graph.ofDeclarations doc.nodes).topologicalOrder = .ok plan.order
  nodes : plan.nodes = doc.nodes.zipIdx.map fun p => nodeOf catalog doc.nodes p.1 p.2
  edges : plan.edges = doc.nodes.flatMap (edgesInto catalog doc.nodes)

/-- The order of a structured document ranks its nodes. -/
theorem order_spec (hs : Structured catalog doc) {order : List String}
    (h : (Graph.ofDeclarations doc.nodes).topologicalOrder = .ok order) :
    order.Perm (doc.nodes.map (·.id)) ∧ Ranked doc.nodes order.idxOf := by
  have hids : (Graph.ofDeclarations doc.nodes).ids = doc.nodes.map (·.id) :=
    distinct_eq_self hs.nodup
  obtain ⟨hperm, hforward⟩ := Graph.topologicalOrder_sound (Graph.wellFormed_ofDeclarations _) h
  rw [hids] at hperm hforward
  refine ⟨hperm, fun id => ?_, fun n hn d hd => ?_⟩
  · have hlen := hperm.length_eq
    rw [List.length_map] at hlen
    exact hlen ▸ List.idxOf_le_length
  · have hn' : n.id ∈ doc.nodes.map (·.id) := List.mem_map_of_mem hn
    refine hforward d n.id (Graph.mem_edges_ofParts.mpr ⟨?_, ?_, hn'⟩) hn'
    · exact List.mem_flatMap.mpr ⟨n, hn, List.mem_map_of_mem hd⟩
    · exact hs.targets n hn d (mem_distinct.mp hd)

/-- What is built has the order that it was built from, the parts of its nodes in turn, and the moment
and the number of nodes on record. -/
theorem build_parts {report : Report} {order : List String} {now : Moment}
    (h : build catalog doc report order now = .ok plan) :
    (Graph.ofDeclarations doc.nodes).checkOrder order = .ok () ∧
      ∃ parts, buildNodes catalog doc = .ok parts ∧ plan.order = order ∧
        plan.nodes = parts.map (·.1) ∧ plan.edges = parts.flatMap (·.2) ∧
        plan.compiledAt = now ∧ plan.nodeCount = plan.nodes.length := by
  unfold build at h
  by_cases herrors : report.errors.isEmpty = true
  · cases hcheck : (Graph.ofDeclarations doc.nodes).checkOrder order with
    | error fault =>
      simp [herrors, hcheck] at h
      cases h
    | ok _ =>
      cases hparts : buildNodes catalog doc with
      | error fault => simp [herrors, hcheck, hparts] at h
      | ok parts =>
        simp [herrors, hcheck, hparts] at h
        subst h
        exact ⟨rfl, parts, rfl, rfl, rfl, rfl, rfl, (List.length_map _).symm⟩
  · simp [herrors] at h
    cases h

theorem build_eq_ok (hs : Structured catalog doc) {order : List String}
    (horder : (Graph.ofDeclarations doc.nodes).topologicalOrder = .ok order) {report : Report}
    {now : Moment} (h : build catalog doc report order now = .ok plan) :
    plan.order = order ∧
      plan.nodes = doc.nodes.zipIdx.map (fun p => nodeOf catalog doc.nodes p.1 p.2) ∧
      plan.edges = doc.nodes.flatMap (edgesInto catalog doc.nodes) := by
  obtain ⟨-, parts, hparts, hplan, hnodes, hedges, -⟩ := build_parts h
  rw [buildNodes_eq (order_spec hs horder).2 hs.known] at hparts
  obtain rfl := Except.ok.inj hparts
  refine ⟨hplan, by rw [hnodes, List.map_map]; rfl, ?_⟩
  rw [hedges, List.flatMap_map, ← List.zipIdx_map_fst 0 doc.nodes, List.flatMap_map,
    List.zipIdx_map_fst]

/-- A report and an order with which the compilation of a document goes on to build its plan. -/
structure Cleared (catalog : Catalog) (doc : Document) (report : Report) (order : List String) :
    Prop where
  semantic : (Report.mk (Validation.semanticFaults catalog doc)).isValid = true
  order : (Graph.ofDeclarations doc.nodes).topologicalOrder = .ok order
  eq_extend : report = (Report.mk (Validation.semanticFaults catalog doc)).extend
    (Validation.allCompatibilityFaults catalog doc)
  valid : report.isValid = true

/-- The plan of a document is one built from what was cleared. -/
theorem compileDocument_eq_ok_iff {now : Moment} :
    compileDocument catalog doc now = .ok plan ↔
      ∃ report order, Cleared catalog doc report order ∧
        build catalog doc report order now = .ok plan := by
  constructor
  · intro h
    unfold compileDocument at h
    dsimp only at h
    split at h
    · cases h
    rename_i hsemantic
    split at h
    · cases h
    rename_i order horder
    split at h
    · cases h
    rename_i hvalid
    split at h
    · rename_i built hbuilt
      cases h
      exact ⟨_, order, ⟨by simpa using hsemantic, horder, rfl, by simpa using hvalid⟩, hbuilt⟩
    · cases h
  · rintro ⟨report, order, ⟨hsemantic, horder, rfl, hvalid⟩, hplan⟩
    unfold compileDocument
    simp [hsemantic, horder, hvalid, hplan]

theorem Cleared.compiled {report : Report} {order : List String} {now : Moment}
    (h : Cleared catalog doc report order) (hplan : build catalog doc report order now = .ok plan) :
    Compiled catalog doc plan := by
  obtain ⟨hsemantic, horder, rfl, hvalid⟩ := h
  obtain ⟨hs, hparams⟩ := Validation.semanticFaults_noErrors (isValid_iff.mp hsemantic)
  obtain ⟨rfl, hnodes, hedges⟩ := build_eq_ok hs horder hplan
  exact ⟨hs, hparams, (noErrors_append.mp (isValid_iff.mp hvalid)).2, horder, hnodes, hedges⟩

theorem compiled_of_compileDocument {now : Moment}
    (h : compileDocument catalog doc now = .ok plan) : Compiled catalog doc plan := by
  obtain ⟨_, _, hcleared, hplan⟩ := compileDocument_eq_ok_iff.mp h
  exact hcleared.compiled hplan

theorem compile_eq_ok_iff {source : String} {format : Format} {now : Moment} :
    compile catalog source format now = .ok plan ↔
      ∃ doc, Document.read source format = .ok doc ∧
        compileDocument catalog doc now = .ok plan := by
  unfold compile
  cases Document.read source format <;> simp

theorem compiled_of_compile {source : String} {format : Format} {now : Moment}
    (h : compile catalog source format now = .ok plan) :
    ∃ doc, Document.read source format = .ok doc ∧ Compiled catalog doc plan := by
  obtain ⟨doc, hread, hdoc⟩ := compile_eq_ok_iff.mp h
  exact ⟨doc, hread, compiled_of_compileDocument hdoc⟩

theorem stamped_of_compile {source : String} {format : Format} {now : Moment}
    (h : compile catalog source format now = .ok plan) :
    plan.compiledAt = now ∧ plan.nodeCount = plan.nodes.length := by
  obtain ⟨doc, -, hdoc⟩ := compile_eq_ok_iff.mp h
  obtain ⟨_, _, -, hplan⟩ := compileDocument_eq_ok_iff.mp hdoc
  obtain ⟨-, _, -, -, -, -, hstamp⟩ := build_parts hplan
  exact hstamp

namespace Compiled

theorem ids_eq (h : Compiled catalog doc plan) : plan.ids = doc.nodes.map (·.id) := by
  have hmap : (doc.nodes.zipIdx.map fun p => p.1.id) = doc.nodes.map (·.id) := by
    rw [← List.zipIdx_map_fst 0 doc.nodes, List.map_map, List.zipIdx_map_fst]
    rfl
  rw [ids, h.nodes, List.map_map, ← hmap]
  rfl

theorem mem_nodes (h : Compiled catalog doc plan) {n : PlanNode} :
    n ∈ plan.nodes ↔ ∃ p ∈ doc.nodes.zipIdx, n = nodeOf catalog doc.nodes p.1 p.2 := by
  rw [h.nodes, List.mem_map]
  exact exists_congr fun p => and_congr_right fun _ => eq_comm

theorem ranked (h : Compiled catalog doc plan) : Ranked doc.nodes plan.order.idxOf :=
  (order_spec h.structured h.order).2

theorem ordered (h : Compiled catalog doc plan) : plan.Ordered := by
  have hperm : plan.order.Perm plan.ids := h.ids_eq ▸ (order_spec h.structured h.order).1
  have hnodup : plan.ids.Nodup := h.ids_eq ▸ h.structured.nodup
  refine ⟨hperm.nodup_iff.mpr hnodup, hperm, fun n hn d hd => ?_⟩
  obtain ⟨p, hp, rfl⟩ := h.mem_nodes.mp hn
  exact h.ranked.descends p.1 (List.fst_mem_of_mem_zipIdx hp) d hd

end Compiled

/-! ### What a compiled plan is like -/

/-- The plan has the declarations of the document for nodes, and their dependencies for edges. -/
structure Follows (doc : Document) (plan : Plan) : Prop where
  nodes : List.Forall₂ (fun d n => n.id = d.id ∧ n.type = d.type ∧ n.params = d.params ∧
    n.dependsOn = distinct d.dependsOn) doc.nodes plan.nodes
  nodup : plan.ids.Nodup
  mem_edges : ∀ edge, edge ∈ plan.edges ↔ ∃ m ∈ plan.nodes, ∃ n ∈ plan.nodes,
    m.id ∈ n.dependsOn ∧ edge = ⟨m.id, n.id, edgeKind, m.output.shape⟩
  edges_nodup : plan.edges.Nodup

theorem mem_edgesInto {nodes : List Declaration} {d : Declaration} {edge : PlanEdge} :
    edge ∈ edgesInto catalog nodes d ↔ ∃ source ∈ d.dependencies,
      edge = ⟨source, d.id, edgeKind, (catalog.schemaOf nodes source).shape⟩ := by
  rw [edgesInto, List.mem_map]
  exact exists_congr fun source => and_congr_right fun _ => eq_comm

theorem Compiled.follows (h : Compiled catalog doc plan) : Follows doc plan where
  nodes := by
    rw [h.nodes]
    nth_rewrite 1 [← List.zipIdx_map_fst 0 doc.nodes]
    rw [List.forall₂_map_left_iff, List.forall₂_map_right_iff, List.forall₂_same]
    exact fun p _ => ⟨rfl, rfl, rfl, rfl⟩
  nodup := h.ids_eq ▸ h.structured.nodup
  mem_edges edge := by
    rw [h.edges, List.mem_flatMap]
    constructor
    · rintro ⟨d, hd, hedge⟩
      obtain ⟨source, hsource, rfl⟩ := mem_edgesInto.mp hedge
      obtain ⟨i, hi⟩ := exists_mem_zipIdx hd
      obtain ⟨p, hp, rfl⟩ :=
        List.mem_map.mp (h.structured.targets d hd source (mem_distinct.mp hsource))
      obtain ⟨j, hj⟩ := exists_mem_zipIdx hp
      have hm := h.mem_nodes.mpr ⟨(p, j), hj, rfl⟩
      have hn := h.mem_nodes.mpr ⟨(d, i), hi, rfl⟩
      exact ⟨_, hm, _, hn, hsource, rfl⟩
    · rintro ⟨m, hm, n, hn, hmn, rfl⟩
      obtain ⟨p, hp, rfl⟩ := h.mem_nodes.mp hm
      obtain ⟨q, hq, rfl⟩ := h.mem_nodes.mp hn
      exact ⟨q.1, List.fst_mem_of_mem_zipIdx hq, mem_edgesInto.mpr ⟨p.1.id, hmn, rfl⟩⟩
  edges_nodup := by
    rw [h.edges, List.nodup_flatMap]
    refine ⟨fun d _ => (nodup_distinct _).map fun a b hab => (PlanEdge.mk.inj hab).1, ?_⟩
    refine (List.pairwise_map.mp h.structured.nodup).imp fun {a b} hne => ?_
    intro edge ha hb
    obtain ⟨_, -, rfl⟩ := mem_edgesInto.mp ha
    obtain ⟨_, -, hedge⟩ := mem_edgesInto.mp hb
    exact hne (PlanEdge.mk.inj hedge).2.1

/-- What compiles, compiles to a plan that follows its document, that the engine accepts, and whose
runs get through. -/
theorem compile_wellFormed {source : String} {format : Format} {now : Moment}
    (h : compile catalog source format now = .ok plan) :
    ∃ doc, Document.read source format = .ok doc ∧ Follows doc plan ∧ plan.Ordered ∧
      Engine.planFault? plan = none ∧ Engine.RunsThrough plan := by
  obtain ⟨doc, hread, hcompiled⟩ := compiled_of_compile h
  have hordered := hcompiled.ordered
  exact ⟨doc, hread, hcompiled.follows, hordered, planFault?_eq_none_iff.mpr hordered.accepted,
    Engine.runsThrough hordered⟩

/-- Records and an average over them that lists its input twice. -/
def averageSource : String :=
  "- id: a
  type: InlineDataNode
  params:
    rows:
      - close: 1
- id: b
  type: IndicatorNode
  params:
    indicator: SMA
    period: 2
  depends_on: [a, a]
"

theorem exists_of_isSome {ε α : Type} {x : Except ε α} (h : x.toOption.isSome = true) :
    ∃ a, x = .ok a := by
  cases x with
  | ok a => exact ⟨a, rfl⟩
  | error fault => cases h

set_option maxRecDepth 100000 in
theorem averageSource_compiles : ∃ plan, compile .builtin averageSource .yaml default = .ok plan :=
  exists_of_isSome (by decide +kernel)

theorem averageSource_wellFormed :
    ∃ plan, compile .builtin averageSource .yaml default = .ok plan ∧
      ∃ doc, Document.read averageSource .yaml = .ok doc ∧ Follows doc plan ∧ plan.Ordered ∧
        Engine.planFault? plan = none ∧ Engine.RunsThrough plan := by
  obtain ⟨plan, h⟩ := averageSource_compiles
  exact ⟨plan, h, compile_wellFormed h⟩

end Flowline.Plan
