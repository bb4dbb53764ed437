import Flowline.Proofs.Engine.Loop
import Flowline.Proofs.Node.Aggregate
import Flowline.Proofs.Node.Indicator
import Flowline.Proofs.Node.Inline
import Flowline.Proofs.Plan.Compile
import Flowline.Proofs.Validation.Parameters

/-!
# Pipelines of frames

In a pipeline of records, indicators and aggregations that compiles, every node succeeds, and its
output is a frame with the columns that were inferred for it. By induction along the plan: the
columns that a node requires were inferred for its input, and so its input has them.
-/
namespace Flowline.Plan

variable {catalog : Catalog} {doc : Document} {plan : Plan}

def frameTypes : List String := ["InlineDataNode", "IndicatorNode", "AggregateNode"]

/-- A document of records, indicators and aggregations only. -/
structure FrameDocument (doc : Document) : Prop where
  types : ∀ n ∈ doc.nodes, n.type ∈ frameTypes
  rows : ∀ n ∈ doc.nodes, n.type = "InlineDataNode" → Builtin.items n.params "rows" ≠ []
  integers : ∀ n ∈ doc.nodes, Builtin.IntegersFit n

instance (n : Declaration) : Decidable (Builtin.IntegersFit n) :=
  inferInstanceAs (Decidable (∀ p ∈ n.params, Builtin.fits p.2 = true))

instance (doc : Document) : Decidable (FrameDocument doc) :=
  decidable_of_iff ((∀ n ∈ doc.nodes, n.type ∈ frameTypes) ∧
      (∀ n ∈ doc.nodes, n.type = "InlineDataNode" → Builtin.items n.params "rows" ≠ []) ∧
      ∀ n ∈ doc.nodes, Builtin.IntegersFit n)
    ⟨fun h => ⟨h.1, h.2.1, h.2.2⟩, fun h => ⟨h.types, h.rows, h.integers⟩⟩

/-- The catalog knows the builtin types that produce frames. -/
structure KnowsFrames (catalog : Catalog) : Prop where
  inlineData : catalog.get? "InlineDataNode" = some Builtin.inlineData
  indicator : catalog.get? "IndicatorNode" = some Builtin.indicator
  aggregate : catalog.get? "AggregateNode" = some Builtin.aggregate

theorem knowsFrames_registerCustom (r : Registry) :
    KnowsFrames (Catalog.builtin.registerCustom r).1 where
  inlineData := Catalog.get?_registerCustom r Catalog.get?_builtin_inlineData
  indicator := Catalog.get?_registerCustom r Catalog.get?_builtin_indicator
  aggregate := Catalog.get?_registerCustom r Catalog.get?_builtin_aggregate

/-! ### Inferred schemas -/

theorem Compiled.declared?_eq (h : Compiled catalog doc plan) {n : Declaration} (hn : n ∈ doc.nodes)
    {c : Contract} (hc : catalog.get? n.type = some c) :
    catalog.declared? doc.nodes n.id = some (n, c) := by
  rw [Catalog.declared?_eq _ h.structured.nodup hn, hc, Option.map_some]

theorem Compiled.schemaOf_eq (h : Compiled catalog doc plan) {n : Declaration} (hn : n ∈ doc.nodes)
    {c : Contract} (hc : catalog.get? n.type = some c) :
    catalog.schemaOf doc.nodes n.id = c.schema n (catalog.schemaOf doc.nodes) :=
  Catalog.schemaOf_eq h.ranked (h.declared?_eq hn hc)

theorem Compiled.parametrized (h : Compiled catalog doc plan) {n : Declaration} (hn : n ∈ doc.nodes)
    {c : Contract} (hc : catalog.get? n.type = some c) : Parametrized c n :=
  Validation.parametrized_of_noErrors h.structured h.parameters hn hc

theorem Compiled.single_input (h : Compiled catalog doc plan) {n : Declaration} (hn : n ∈ doc.nodes)
    {c : Contract} (hc : catalog.get? n.type = some c) (harity : c.input.arity = .exactly 1) :
    ∃ d, n.dependencies = [d] ∧ c.input.accepts (catalog.schemaOf doc.nodes d).shape = true ∧
      ((catalog.schemaOf doc.nodes d).isOpen = false → ∀ col ∈ c.input.requiredColumns n.params,
        col ∈ (catalog.schemaOf doc.nodes d).columns) := by
  have hfaults := h.compatible
  rw [Validation.allCompatibilityFaults_eq h.ranked] at hfaults
  exact Validation.single_input (hfaults.of_mem_flatMap hn) hc harity

theorem mem_addColumns {columns more : List String} {c : String} :
    c ∈ Resolver.addColumns columns more ↔ c ∈ columns ∨ c ∈ more := by
  induction more generalizing columns with
  | nil => simp [Resolver.addColumns]
  | cons m more ih =>
    have hstep : Resolver.addColumns columns (m :: more) =
        Resolver.addColumns (if columns.contains m then columns else columns ++ [m]) more := rfl
    rw [hstep, ih]
    by_cases hm : m ∈ columns
    · by_cases hcm : c = m <;> simp [hm, hcm]
    · simp [hm, or_assoc]

theorem inlineOutput_own (params : Fields) : (Builtin.inlineOutput params).inheritsInputs = false ∧
    (Builtin.inlineOutput params).isOpen = false := by
  unfold Builtin.inlineOutput
  split
  · exact ⟨rfl, rfl⟩
  · split <;> exact ⟨rfl, rfl⟩

theorem inlineData_schema (n : Declaration) (s : String → Schema) :
    Builtin.inlineData.schema n s = Builtin.inlineOutput n.params :=
  if_neg (Bool.eq_false_iff.mp (inlineOutput_own n.params).1)

theorem aggregate_schema (n : Declaration) (s : String → Schema) :
    Builtin.aggregate.schema n s = Builtin.aggregateOutput n.params := rfl

/-- An indicator passes on the columns of its input and adds its own. -/
theorem indicator_schema {n : Declaration} {d : String} (hd : n.dependencies = [d])
    (s : String → Schema) : (Builtin.indicator.schema n s).isOpen = (s d).isOpen ∧
      ∀ c ∈ (Builtin.indicator.schema n s).columns,
        c ∈ (s d).columns ∨ c ∈ Builtin.indicatorOutputColumns n.params := by
  have hschema : Builtin.indicator.schema n s = ⟨.dataframe, Resolver.addColumns
      (Resolver.inherit ([], false) (s d)).1 (Builtin.indicatorOutputColumns n.params), false,
      (Resolver.inherit ([], false) (s d)).2⟩ := by
    rw [Contract.schema, hd]
    rfl
  rw [hschema]
  refine ⟨Bool.false_or _, fun c hc => ?_⟩
  rcases mem_addColumns.mp hc with hc | hc
  · unfold Resolver.inherit at hc
    dsimp only at hc
    split at hc
    · exact Or.inl ((mem_addColumns.mp hc).resolve_left (List.not_mem_nil))
    · cases hc
  · exact Or.inr hc

/-- The columns of all outputs are known before the run. -/
theorem Compiled.schemaOf_closed (h : Compiled catalog doc plan) (hf : FrameDocument doc)
    (hk : KnowsFrames catalog) {n : Declaration} (hn : n ∈ doc.nodes) :
    (catalog.schemaOf doc.nodes n.id).isOpen = false := by
  generalize hrank : plan.order.idxOf n.id = k
  induction k using Nat.strongRecOn generalizing n with
  | ind k ih =>
    have htype := hf.types n hn
    simp only [frameTypes, List.mem_cons, List.not_mem_nil, or_false] at htype
    rcases htype with htype | htype | htype
    · have hc : catalog.get? n.type = some Builtin.inlineData := htype ▸ hk.inlineData
      rw [h.schemaOf_eq hn hc, inlineData_schema]
      exact (inlineOutput_own n.params).2
    · have hc : catalog.get? n.type = some Builtin.indicator := htype ▸ hk.indicator
      obtain ⟨d, hd, -⟩ := h.single_input hn hc rfl
      have hdep : d ∈ n.dependencies := hd ▸ List.mem_singleton_self d
      obtain ⟨m, hm, rfl⟩ :=
        List.mem_map.mp (h.structured.targets n hn d (mem_distinct.mp hdep))
      rw [h.schemaOf_eq hn hc, (indicator_schema hd _).1]
      exact ih _ (hrank ▸ h.ranked.descends n hn m.id hdep) hm rfl
    · have hc : catalog.get? n.type = some Builtin.aggregate := htype ▸ hk.aggregate
      rw [h.schemaOf_eq hn hc]
      rfl

/-- The columns that a node requires of its one input are inferred for that input. -/
theorem Compiled.requires (h : Compiled catalog doc plan) (hf : FrameDocument doc)
    (hk : KnowsFrames catalog) {n : Declaration} (hn : n ∈ doc.nodes) {c : Contract}
    (hc : catalog.get? n.type = some c) (harity : c.input.arity = .exactly 1) :
    ∃ d, n.dependencies = [d] ∧ ∀ col ∈ c.input.requiredColumns n.params,
      col ∈ (catalog.schemaOf doc.nodes d).columns := by
  obtain ⟨d, hd, -, hcolumns⟩ := h.single_input hn hc harity
  have hdep : d ∈ n.dependencies := hd ▸ List.mem_singleton_self d
  obtain ⟨m, hm, rfl⟩ := List.mem_map.mp (h.structured.targets n hn d (mem_distinct.mp hdep))
  exact ⟨m.id, hd, hcolumns (h.schemaOf_closed hf hk hm)⟩

/-! ### Nodes -/

theorem executeBuiltin_eq {i : Invocation} {execute : Invocation → Except NodeError Value}
    {v : Value} (hlookup : Node.builtins.lookup i.type = some execute) (hv : execute i = .ok v) :
    Node.executeBuiltin false i = .succeed i.node v := by
  simp [Node.executeBuiltin, hlookup, hv]

/-- The input of a node is a frame with the columns that were inferred for its dependency. -/
def Fed (catalog : Catalog) (nodes : List Declaration) (n : Declaration) (i : Invocation) : Prop :=
  ∀ d, n.dependencies = [d] →
    ∃ v, i.inputs = [(d, v)] ∧ v.Carries (catalog.schemaOf nodes d).columns

section Nodes

variable {n : Declaration} {i : Invocation}

theorem Compiled.inlineData_carries (h : Compiled catalog doc plan) (hf : FrameDocument doc)
    (hk : KnowsFrames catalog) (hn : n ∈ doc.nodes) (htype : n.type = "InlineDataNode")
    (hparams : i.params = n.params) :
    ∃ v, Node.inlineData i = .ok v ∧ v.Carries (catalog.schemaOf doc.nodes n.id).columns := by
  have hc : catalog.get? n.type = some Builtin.inlineData := htype ▸ hk.inlineData
  obtain ⟨rows, hrows⟩ := Builtin.inlineData_rows (h.parametrized hn hc)
  have hne : rows ≠ [] := by
    rintro rfl
    exact hf.rows n hn htype (by rw [Builtin.items, hrows]; rfl)
  rw [h.schemaOf_eq hn hc, inlineData_schema, ← hparams]
  exact Node.inlineData_carries (hparams ▸ hrows) hne

theorem Compiled.indicator_carries (h : Compiled catalog doc plan) (hf : FrameDocument doc)
    (hk : KnowsFrames catalog) (hn : n ∈ doc.nodes) (htype : n.type = "IndicatorNode")
    (hparams : i.params = n.params) (hfed : Fed catalog doc.nodes n i) :
    ∃ v, Node.indicator i = .ok v ∧ v.Carries (catalog.schemaOf doc.nodes n.id).columns := by
  have hc : catalog.get? n.type = some Builtin.indicator := htype ▸ hk.indicator
  obtain ⟨d, hd, hcolumns⟩ := h.requires hf hk hn hc rfl
  obtain ⟨v, hin, hv⟩ := hfed d hd
  obtain ⟨w, hw, hcarries⟩ := Node.indicator_carries (h.parametrized hn hc) (hf.integers n hn)
    hparams hin hv hcolumns
  refine ⟨w, hw, hcarries.mono fun c hcol => ?_⟩
  rw [h.schemaOf_eq hn hc] at hcol
  exact List.mem_append.mpr ((indicator_schema hd _).2 c hcol)

theorem Compiled.aggregate_carries (h : Compiled catalog doc plan) (hf : FrameDocument doc)
    (hk : KnowsFrames catalog) (hn : n ∈ doc.nodes) (htype : n.type = "AggregateNode")
    (hparams : i.params = n.params) (hfed : Fed catalog doc.nodes n i) :
    ∃ v, Node.aggregate i = .ok v ∧ v.Carries (catalog.schemaOf doc.nodes n.id).columns := by
  have hc : catalog.get? n.type = some Builtin.aggregate := htype ▸ hk.aggregate
  obtain ⟨d, hd, hcolumns⟩ := h.requires hf hk hn hc rfl
  obtain ⟨v, hin, hv⟩ := hfed d hd
  rw [h.schemaOf_eq hn hc, aggregate_schema]
  exact Node.aggregate_carries (h.parametrized hn hc) hparams hin (hv.mono hcolumns)

/-- A node that is fed succeeds, with the columns that were inferred for it. -/
theorem Compiled.executes (h : Compiled catalog doc plan) (hf : FrameDocument doc)
    (hk : KnowsFrames catalog) (hn : n ∈ doc.nodes) (htype : i.type = n.type)
    (hparams : i.params = n.params) (hfed : Fed catalog doc.nodes n i) :
    ∃ v, Node.executeBuiltin false i = .succeed i.node v ∧
      v.Carries (catalog.schemaOf doc.nodes n.id).columns := by
  have hcases := hf.types n hn
  simp only [frameTypes, List.mem_cons, List.not_mem_nil, or_false] at hcases
  rcases hcases with hcase | hcase | hcase
  · obtain ⟨v, hv, hcarries⟩ := h.inlineData_carries hf hk hn hcase hparams
    exact ⟨v, executeBuiltin_eq (by rw [htype, hcase]; rfl) hv, hcarries⟩
  · obtain ⟨v, hv, hcarries⟩ := h.indicator_carries hf hk hn hcase hparams hfed
    exact ⟨v, executeBuiltin_eq (by rw [htype, hcase]; rfl) hv, hcarries⟩
  · obtain ⟨v, hv, hcarries⟩ := h.aggregate_carries hf hk hn hcase hparams hfed
    exact ⟨v, executeBuiltin_eq (by rw [htype, hcase]; rfl) hv, hcarries⟩

end Nodes

/-! ### Runs -/

/-- The run completes without a failure, and the output of every node is a frame with at least one
row and with the columns that were inferred for it. -/
structure Fulfilled (plan : Plan) (s : Engine.State) : Prop where
  completed : s.status = .completed
  succeeded : ∀ id r, s.result? id = some r → r.success = true
  frames : ∀ n ∈ plan.nodes, ∃ r f, s.result? n.id = some r ∧ Frame.ofValue r.output = .ok f ∧
    f.rows ≠ [] ∧ ∀ c ∈ n.output.columns, c ∈ f.columns

theorem Compiled.isBuiltin (h : Compiled catalog doc plan) (hf : FrameDocument doc) {n : PlanNode}
    (hn : n ∈ plan.nodes) : Node.isBuiltin n.type = true := by
  obtain ⟨p, hp, rfl⟩ := h.mem_nodes.mp hn
  have hall : ∀ type ∈ frameTypes, Node.isBuiltin type = true := by decide
  exact hall _ (hf.types p.1 (List.fst_mem_of_mem_zipIdx hp))

/-- A node whose dependencies have ended with the columns that were inferred for them is fed. -/
theorem Compiled.fed (h : Compiled catalog doc plan) {s : Engine.State} {n : Declaration} {k : Nat}
    (hn : nodeOf catalog doc.nodes n k ∈ plan.nodes)
    (hready : s.isReady (nodeOf catalog doc.nodes n k) = true)
    (hdeps : ∀ m ∈ plan.nodes, m.id ∈ n.dependencies → ∀ q, s.result? m.id = some q →
      q.output.Carries m.output.columns) :
    Fed catalog doc.nodes n (s.invocation (nodeOf catalog doc.nodes n k)) := by
  intro d hd
  have hdep : d ∈ n.dependencies := hd ▸ List.mem_singleton_self d
  obtain ⟨m, hm, rfl⟩ := List.mem_map.mp (h.ordered.accepted.known _ hn d hdep)
  obtain ⟨q, hq, -⟩ := Engine.State.isReady_iff.mp hready m.id hdep
  have hcarries := hdeps m hm hdep q hq
  obtain ⟨p, -, rfl⟩ := h.mem_nodes.mp hm
  refine ⟨q.output, ?_, hcarries⟩
  have hdepends : distinct (nodeOf catalog doc.nodes n k).dependsOn = [p.1.id] := by
    change distinct n.dependencies = _
    rw [hd]
    rfl
  simp only [Engine.State.invocation, hdepends, List.filterMap_cons, List.filterMap_nil]
  rw [show s.result? p.1.id = some q from hq]
  rfl

/-- What is recorded for a node is a success with the columns that were inferred for it. -/
theorem Compiled.carries (h : Compiled catalog doc plan) (hf : FrameDocument doc)
    (hk : KnowsFrames catalog) {e : Engine.Terms} (he : e.HasBuiltins) {s : Engine.State}
    (hs : Engine.Consistent e plan s) {n : PlanNode} (hn : n ∈ plan.nodes) {r : NodeResult}
    (hr : s.result? n.id = some r) : r.success = true ∧ r.output.Carries n.output.columns := by
  refine hs.results_induction h.ordered (p := fun n r =>
    r.success = true ∧ r.output.Carries n.output.columns)
    (fun n hn r hready hanswer hdeps => ?_) hn hr
  have hresult := he.executed _ r (he.assigned _ (h.isBuiltin hf hn)) hanswer
  obtain ⟨p, hp, rfl⟩ := h.mem_nodes.mp hn
  have hfed := h.fed hn hready fun m hm hdep q hq => (hdeps m hm hdep q hq).2
  obtain ⟨v, hv, hcarries⟩ := h.executes hf hk (List.fst_mem_of_mem_zipIdx hp) rfl rfl hfed
  have hsucceed : r.untimed = (NodeResult.succeed p.1.id v).untimed :=
    hresult.trans (congrArg NodeResult.untimed hv)
  refine ⟨NodeResult.untimed_success hsucceed, ?_⟩
  rw [NodeResult.untimed_output hsucceed]
  exact hcarries

theorem Compiled.fulfilled (h : Compiled catalog doc plan) (hf : FrameDocument doc)
    (hk : KnowsFrames catalog) {e : Engine.Terms} (he : e.HasBuiltins) {s : Engine.State}
    (hs : e.EndsIn plan s) : Fulfilled plan s := by
  have hc := (Engine.Invariant.of_reaches h.ordered.accepted hs.reaches).consistent
  have hsucceeded : ∀ id r, s.result? id = some r → r.success = true := by
    intro id r hr
    obtain ⟨n, hn, rfl⟩ := List.mem_map.mp (hc.mem_ids hr)
    exact (h.carries hf hk he hc hn hr).1
  obtain ⟨hstatus, -, hall⟩ := (Engine.runsThrough h.ordered).completes e s hs hsucceeded
  refine ⟨hstatus, hsucceeded, fun n hn => ?_⟩
  obtain ⟨r, hr, -⟩ := hall n hn
  obtain ⟨f, hread, hprovides⟩ := (h.carries hf hk he hc hn hr).2
  exact ⟨r, f, hr, hread, hprovides.nonempty,
    fun c hcol => Frame.mem_columns.mpr (hprovides.has c hcol)⟩

/-- Runs of the plan end and do not go wrong, under any terms with builtins and on the host of any
setup. -/
structure Safe (plan : Plan) : Prop where
  terminates : ∀ e : Engine.Terms, (∀ t, ∃ r, e.answers t r) → e.Terminates plan
  fulfilled : ∀ e : Engine.Terms, e.HasBuiltins → ∀ s, e.EndsIn plan s → Fulfilled plan s
  run : ∀ (setup : Setup) (files : Entry) (units : UnitHost) (c : Context)
    (settings : EngineSettings) (runId : String), ∃ s w,
      Engine.run (setup.host files units c) settings plan runId none = (.ok s, w) ∧ Fulfilled plan s

theorem Compiled.safe (h : Compiled catalog doc plan) (hf : FrameDocument doc)
    (hk : KnowsFrames catalog) : Safe plan where
  terminates e he := Engine.terminates he plan
  fulfilled e he s hs := h.fulfilled hf hk he hs
  run setup files units c settings runId := by
    have hstart : Engine.startError? setup.runners plan = none := by
      refine startError?_eq_none_iff.mpr ⟨h.ordered.accepted, fun n hn => ?_⟩
      exact ⟨_, setup.select_runners (h.isBuiltin hf hn)⟩
    obtain ⟨s, w, hrun, hs⟩ := Engine.endsIn_run (setup.serves_terms settings files units c)
      (setup.neverCancels files units c) runId rfl hstart
    exact ⟨s, w, hrun, h.fulfilled hf hk (setup.terms_hasBuiltins settings) hs⟩

/-- A pipeline of frames that compiles does not go wrong. -/
theorem compile_safe {registry : Registry} {source : String} {format : Format} {now : Moment}
    (h : compile (Catalog.builtin.registerCustom registry).1 source format now = .ok plan)
    (hread : Document.read source format = .ok doc) (hf : FrameDocument doc) : Safe plan := by
  obtain ⟨read, hread', hcompiled⟩ := compiled_of_compile h
  obtain rfl : read = doc := Except.ok.inj (hread'.symm.trans hread)
  exact hcompiled.safe hf (knowsFrames_registerCustom registry)

set_option maxRecDepth 100000 in
theorem averageSource_frameDocument :
    (Document.read averageSource .yaml).toOption.any (fun doc => decide (FrameDocument doc)) =
      true := by
  decide +kernel

theorem averageSource_safe : ∃ plan doc,
    compile (Catalog.builtin.registerCustom {}).1 averageSource .yaml default = .ok plan ∧
      Document.read averageSource .yaml = .ok doc ∧ FrameDocument doc ∧ Safe plan := by
  obtain ⟨plan, hcompile⟩ := averageSource_compiles
  rw [← Catalog.registerCustom_empty .builtin] at hcompile
  have hframes := averageSource_frameDocument
  cases hread : Document.read averageSource .yaml with
  | error fault =>
    rw [hread] at hframes
    cases hframes
  | ok doc =>
    rw [hread] at hframes
    have hf : FrameDocument doc := of_decide_eq_true hframes
    exact ⟨plan, doc, hcompile, rfl, hf, compile_safe hcompile hread hf⟩

end Flowline.Plan
