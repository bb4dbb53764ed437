import Flowline.Proofs.Engine.Start
import Flowline.Setup

/-!
# Bound datasets are enough for a run

The datasets of a plan are bound once, before the run; they are used later, node by node, from the
parameters that a task carries. A provider is asked for each missing name once, whatever it does.
-/
namespace Flowline

namespace Context

variable {c : Context} {m : Type → Type} [Monad m]

/-! ### Which names are asked for -/

/-- The names of datasets that nodes give and that are not bound, each once. -/
def missing (c : Context) (nodes : List PlanNode) : List String :=
  distinct ((nodes.filterMap fun n => datasetOf? n.params).filter fun name =>
    (c.dataset? name).isNone)

def bindAll (c : Context) (bindings : List (String × String)) : Context :=
  bindings.foldl (fun c (name, path) => c.bind name path) c

theorem mem_missing {nodes : List PlanNode} {name : String} : name ∈ c.missing nodes ↔
    c.dataset? name = none ∧ ∃ n ∈ nodes, datasetOf? n.params = some name := by
  rw [missing, mem_distinct, List.mem_filter, List.mem_filterMap, Option.isNone_iff_eq_none, and_comm]

theorem dataset?_bind (c : Context) (name path other : String) :
    (c.bind name path).dataset? other = if other = name then some path else c.dataset? other := by
  rw [dataset?, bind, List.lookup_cons]
  by_cases h : other = name
  · simp [h]
  · simp [h, beq_eq_false_iff_ne.mpr h, dataset?]

theorem missing_bind (c : Context) (name path : String) (nodes : List PlanNode) :
    (c.bind name path).missing nodes = (c.missing nodes).filter (· ≠ name) := by
  rw [missing, missing, filter_distinct, List.filter_filter]
  refine congrArg distinct (List.filter_congr fun other _ => ?_)
  rw [dataset?_bind]
  by_cases h : other = name <;> simp [h]

theorem missing_cons_of_none {n : PlanNode} (h : datasetOf? n.params = none)
    (nodes : List PlanNode) : c.missing (n :: nodes) = c.missing nodes := by
  simp only [missing, List.filterMap_cons, h]

theorem missing_cons_of_bound {n : PlanNode} {name : String} (h : datasetOf? n.params = some name)
    (hbound : (c.dataset? name).isSome = true) (nodes : List PlanNode) :
    c.missing (n :: nodes) = c.missing nodes := by
  have hnot : (c.dataset? name).isNone = false := by rw [← Option.not_isSome, hbound, Bool.not_true]
  simp only [missing, List.filterMap_cons, h, List.filter_cons, hnot, Bool.false_eq_true, if_false]

theorem missing_cons_of_new {n : PlanNode} {name : String} (h : datasetOf? n.params = some name)
    (hnew : ¬ (c.dataset? name).isSome = true) (nodes : List PlanNode) :
    c.missing (n :: nodes) = name :: (c.missing nodes).filter (· ≠ name) := by
  have hnone : (c.dataset? name).isNone = true := by simpa using hnew
  simp only [missing, List.filterMap_cons, h, List.filter_cons, hnone, if_true, distinct]

/-- Binding the datasets of a plan is asking for the missing names in order. -/
theorem bindDatasets_eq [LawfulMonad m] (c : Context) (plan : Plan) (provide : String → m String) :
    c.bindDatasets plan provide =
      (fun paths => c.bindAll ((c.missing plan.nodes).zip paths)) <$>
        (c.missing plan.nodes).mapM provide := by
  obtain ⟨id, name, description, version, compiledAt, count, cyclic, hash, nodes, edges, order⟩ := plan
  simp only [bindDatasets]
  induction nodes generalizing c with
  | nil => simp [missing, distinct, bindAll]
  | cons n nodes ih =>
    rw [List.foldlM_cons]
    cases hn : datasetOf? n.params with
    | none =>
      simp only [pure_bind]
      rw [ih c, missing_cons_of_none hn]
    | some name =>
      by_cases hbound : (c.dataset? name).isSome = true
      · simp only [hbound, if_true, pure_bind]
        rw [ih c, missing_cons_of_bound hn hbound]
      · simp only [hbound, Bool.false_eq_true, if_false, bind_map_left]
        rw [missing_cons_of_new hn hbound, List.mapM_cons]
        simp only [map_bind, ih, missing_bind, map_pure]
        refine bind_congr fun path => ?_
        rw [map_eq_pure_bind]
        rfl

/-! ### What is bound then -/

theorem dataset?_bindAll {bindings : List (String × String)}
    (hnames : (bindings.map (·.1)).Nodup) (hnew : ∀ b ∈ bindings, c.dataset? b.1 = none)
    (name : String) :
    (c.bindAll bindings).dataset? name = (c.dataset? name).or (bindings.lookup name) := by
  induction bindings generalizing c with
  | nil => rw [List.lookup_nil, Option.or_none]; rfl
  | cons b bindings ih =>
    obtain ⟨key, path⟩ := b
    obtain ⟨hkey, hrest⟩ := List.nodup_cons.mp hnames
    have hlater : ∀ b ∈ bindings, (c.bind key path).dataset? b.1 = none := by
      intro b hb
      have hne : b.1 ≠ key := fun heq => hkey (List.mem_map.mpr ⟨b, hb, heq⟩)
      rw [dataset?_bind, if_neg hne]
      exact hnew b (List.mem_cons_of_mem _ hb)
    rw [bindAll, List.foldl_cons, ← bindAll, ih hrest hlater, dataset?_bind, List.lookup_cons]
    by_cases h : name = key
    · subst h
      have hnone : c.dataset? name = none := hnew _ List.mem_cons_self
      simp [hnone]
    · simp [h, beq_eq_false_iff_ne.mpr h]

theorem bindAll_keeps (c : Context) (bindings : List (String × String)) :
    (c.bindAll bindings).runId = c.runId ∧ (c.bindAll bindings).pipelineId = c.pipelineId := by
  induction bindings generalizing c with
  | nil => exact ⟨rfl, rfl⟩
  | cons b bindings ih => exact ih (c.bind b.1 b.2)

/-! ### What nodes find -/

/-- A node finds its dataset in `c'`, at the path that was bound in `c` before or else is the answer of
the provider; its unit is run with that. -/
structure Supplies (c : Context) (answers : List (String × String)) (c' : Context) (i : Invocation) :
    Prop where
  unnamed : datasetOf? i.params = none → Node.datasetsOf c' i = .ok []
  named : ∀ name, datasetOf? i.params = some name →
    ∃ path, (c.dataset? name).or (answers.lookup name) = some path ∧
      Node.datasetsOf c' i = .ok [(name, path)]
  executed : ∀ (units : UnitHost) stopped l entry scan, ∃ r : UnitRequest, r.node = i.node ∧
    Node.datasetsOf c' i = .ok r.datasets ∧
    Node.executeUnit ⟨units, c', stopped⟩ i l entry scan =
      (Node.resultOf i.node (units.run stopped c' r).2 (units.run stopped c' r).1,
        (units.run stopped c' r).2)

/-- Binding the datasets of a plan has led from `c` to `c'`. -/
structure Binds (c : Context) (plan : Plan) (answers : List (String × String)) (c' : Context) :
    Prop where
  once : (answers.map (·.1)).Nodup
  needed : ∀ name, name ∈ answers.map (·.1) ↔
    c.dataset? name = none ∧ ∃ n ∈ plan.nodes, datasetOf? n.params = some name
  /-- In particular what was bound stays as it was. -/
  bound : ∀ name, c'.dataset? name = (c.dataset? name).or (answers.lookup name)
  names : c'.runId = c.runId ∧ c'.pipelineId = c.pipelineId
  nodes : ∀ n ∈ plan.nodes, ∀ s : Engine.State, c.Supplies answers c' (s.invocation n)
  /-- At any moment of any run that was started. -/
  tasks : ∀ e : Engine.Terms, Engine.startError? e.runners plan = none →
    ∀ moment, e.Reaches plan moment → ∀ t ∈ moment.state.started,
      (∃ n ∈ plan.nodes, t.id = n.id ∧ t.invocation.params = n.params) ∧
        c.Supplies answers c' t.invocation

/-- A unit is refused only for a dataset that is not bound. -/
theorem executeUnit_of_ok {c' : Context} {i : Invocation} {datasets : List (String × String)}
    (h : Node.datasetsOf c' i = .ok datasets) (units : UnitHost) (stopped : Bool) (l : Language)
    (entry : EntryPoint) (scan : Bool) :
    ∃ r : UnitRequest, r.node = i.node ∧ Node.datasetsOf c' i = .ok r.datasets ∧
      Node.executeUnit ⟨units, c', stopped⟩ i l entry scan =
        (Node.resultOf i.node (units.run stopped c' r).2 (units.run stopped c' r).1,
          (units.run stopped c' r).2) := by
  let request : UnitRequest := {
    node := i.node, type := i.type, language := l, entry, scanEntry := scan, datasets
    params := i.params, inputs := i.inputFields }
  refine ⟨request, rfl, h, ?_⟩
  simp only [Node.executeUnit, h, request]

section Supplies

variable {c' : Context} {answers : List (String × String)} {plan : Plan}
  (hneeded : ∀ name, name ∈ answers.map (·.1) ↔
    c.dataset? name = none ∧ ∃ n ∈ plan.nodes, datasetOf? n.params = some name)

include hneeded

/-- A name that a node gives has been bound before, or was asked for. -/
theorem exists_path {n : PlanNode} (hn : n ∈ plan.nodes) {name : String}
    (hname : datasetOf? n.params = some name) :
    ∃ path, (c.dataset? name).or (answers.lookup name) = some path := by
  cases hc : c.dataset? name with
  | some path => exact ⟨path, rfl⟩
  | none =>
    obtain ⟨entry, hentry, hkey⟩ := List.mem_map.mp ((hneeded name).mpr ⟨hc, n, hn, hname⟩)
    rw [Option.none_or, ← Option.isSome_iff_exists, Option.isSome_iff_ne_none, ne_eq,
      List.lookup_eq_none_iff]
    intro hnone
    exact bne_iff_ne.mp (hnone entry hentry) hkey.symm

theorem supplies_of_bound
    (hbound : ∀ name, c'.dataset? name = (c.dataset? name).or (answers.lookup name))
    {n : PlanNode} (hn : n ∈ plan.nodes) {i : Invocation} (hparams : i.params = n.params) :
    c.Supplies answers c' i := by
  have hunnamed : datasetOf? i.params = none → Node.datasetsOf c' i = .ok [] := by
    intro h
    simp only [Node.datasetsOf, h]
  have hnamed : ∀ name, datasetOf? i.params = some name →
      ∃ path, (c.dataset? name).or (answers.lookup name) = some path ∧
        Node.datasetsOf c' i = .ok [(name, path)] := by
    intro name h
    obtain ⟨path, hpath⟩ := exists_path hneeded hn (hparams ▸ h)
    refine ⟨path, hpath, ?_⟩
    simp only [Node.datasetsOf, h, hbound, hpath]
  refine ⟨hunnamed, hnamed, ?_⟩
  cases h : datasetOf? i.params with
  | none => exact executeUnit_of_ok (hunnamed h)
  | some name =>
    obtain ⟨path, -, hpath⟩ := hnamed name h
    exact executeUnit_of_ok hpath

end Supplies

theorem binds_bindAll (c : Context) (plan : Plan) {paths : List String}
    (hlength : paths.length = (c.missing plan.nodes).length) :
    c.Binds plan ((c.missing plan.nodes).zip paths)
      (c.bindAll ((c.missing plan.nodes).zip paths)) := by
  have hnames : ((c.missing plan.nodes).zip paths).map (·.1) = c.missing plan.nodes :=
    List.map_fst_zip hlength.ge
  have honce : (((c.missing plan.nodes).zip paths).map (·.1)).Nodup := by
    rw [hnames]
    exact nodup_distinct _
  have hneeded : ∀ name, name ∈ ((c.missing plan.nodes).zip paths).map (·.1) ↔
      c.dataset? name = none ∧ ∃ n ∈ plan.nodes, datasetOf? n.params = some name := by
    rw [hnames]
    exact fun name => mem_missing
  have hbound := dataset?_bindAll honce fun b hb =>
    ((hneeded b.1).mp (List.mem_map_of_mem hb)).1
  refine ⟨honce, hneeded, hbound, bindAll_keeps _ _,
    fun n hn s => supplies_of_bound hneeded hbound hn rfl, fun e hstart moment hreached t ht => ?_⟩
  obtain ⟨n, hn, _, _, hstarted⟩ :=
    (Engine.startsSafely_of_reaches hstart hreached).justified t ht
  exact ⟨⟨n, hn, hstarted.starts.node, hstarted.starts.params⟩,
    supplies_of_bound hneeded hbound hn hstarted.starts.params⟩

/-! ### Providers -/

/-- There are as many answers as questions. -/
theorem map_length_mapM [LawfulMonad m] {α β : Type} (f : α → m β) (as : List α) :
    List.length <$> as.mapM f = (fun _ => as.length) <$> as.mapM f := by
  induction as with
  | nil => simp
  | cons a as ih =>
    have hsucc := congrArg (Nat.succ <$> ·) ih
    simp only [Functor.map_map] at hsucc
    simp only [List.mapM_cons, map_bind, map_pure, List.length_cons]
    refine bind_congr fun b => ?_
    rw [← map_eq_pure_bind, ← map_eq_pure_bind]
    exact hsucc

/-- A provider with a state of its own is asked for the missing names, in order and once each, and for
nothing else; with its answers every node of the plan is supplied, in every run. -/
theorem bindDatasets_supplies {σ : Type} (c : Context) (plan : Plan)
    (provide : String → StateT σ (Except PipelineError) String) {w w' : σ} {c' : Context}
    (h : (c.bindDatasets plan provide).run w = .ok (c', w')) :
    ∃ answers, answers.map (·.1) = c.missing plan.nodes ∧
      ((c.missing plan.nodes).mapM provide).run w = .ok (answers.map (·.2), w') ∧
      c.Binds plan answers c' := by
  have hcount := congrArg (StateT.run · w) (map_length_mapM provide (c.missing plan.nodes))
  rw [bindDatasets_eq, StateT.run_map] at h
  simp only [StateT.run_map] at hcount
  cases hpaths : ((c.missing plan.nodes).mapM provide).run w with
  | error e =>
    rw [hpaths] at h
    cases h
  | ok p =>
    obtain ⟨paths, v⟩ := p
    rw [hpaths] at h hcount
    have hlength : paths.length = (c.missing plan.nodes).length :=
      congrArg Prod.fst (Except.ok.inj hcount)
    cases h
    refine ⟨(c.missing plan.nodes).zip paths, List.map_fst_zip hlength.ge, ?_,
      binds_bindAll c plan hlength⟩
    rw [List.map_snd_zip hlength.le]

/-- Two nodes share a dataset, one names a dataset that is bound, and one gives no name. -/
def sharingPlan : Plan :=
  let node (id : String) (params : Fields) : PlanNode := { (default : PlanNode) with id, params }
  { (default : Plan) with
    nodes := [node "a" [("dataset", .str "prices")], node "b" [("dataset", .str "prices")],
      node "c" [("dataset", .str "own")], node "d" [("dataset", .null)]]
    order := ["a", "b", "c", "d"] }

/-- A provider that counts how often it is asked. -/
def counted (name : String) : StateT Nat (Except PipelineError) String :=
  fun asked => .ok ("/data/" ++ name, asked + 1)

/-- The run has a dataset before its plan is looked at. -/
def ownDataset : Context := ⟨"r", "p", [("own", "/own")]⟩

theorem bindDatasets_supplies_sharingPlan : ∃ c',
    (ownDataset.bindDatasets sharingPlan counted).run 0 = .ok (c', 1) ∧
      c'.datasets = [("prices", "/data/prices"), ("own", "/own")] ∧
      Engine.startError? (Engine.echo {}).runners sharingPlan = none ∧
      ∃ answers, answers.map (·.1) = ["prices"] ∧ ownDataset.Binds sharingPlan answers c' := by
  have hbind : (ownDataset.bindDatasets sharingPlan counted).run 0 = .ok (_, 1) := rfl
  obtain ⟨answers, hnames, -, hbinds⟩ := bindDatasets_supplies ownDataset sharingPlan counted hbind
  exact ⟨_, hbind, rfl, rfl, answers, hnames, hbinds⟩

end Context

/-- The provider of a setup has no state. -/
theorem Setup.bind_supplies (s : Setup) (files : Entry) (plan : Plan) {c c' : Context}
    (h : s.bind files plan c = .ok c') :
    ∃ answers, answers.map (·.1) = c.missing plan.nodes ∧
      (c.missing plan.nodes).mapM (Dataset.resolve files s.config.paths.datasets) =
        .ok (answers.map (·.2)) ∧
      c.Binds plan answers c' := by
  rw [Setup.bind, Context.bindDatasets_eq] at h
  have hcount := Context.map_length_mapM (Dataset.resolve files s.config.paths.datasets)
    (c.missing plan.nodes)
  cases hpaths : (c.missing plan.nodes).mapM (Dataset.resolve files s.config.paths.datasets) with
  | error e =>
    rw [hpaths] at h
    cases h
  | ok paths =>
    rw [hpaths] at h hcount
    have hlength : paths.length = (c.missing plan.nodes).length := Except.ok.inj hcount
    cases h
    refine ⟨(c.missing plan.nodes).zip paths, List.map_fst_zip hlength.ge, ?_,
      Context.binds_bindAll c plan hlength⟩
    rw [List.map_snd_zip hlength.le]

end Flowline
