import Flowline.Proofs.Engine.Invariant

/-!
# Starting nodes

A node is started at most once, in a scheduling pass, when all its dependencies have succeeded, and
is given their outputs. A run that is halted starts nothing more.
-/
namespace Flowline.Engine

variable {e : Terms} {plan : Plan}

/-! ### What a step does to results and to started tasks -/

theorem Step.extends {a b : Snapshot} (h : Step e a b) : a.state.Extends b.state := by
  cases h with
  | cancelPass s | cancel s | expire s | crash s | lose s | close s => exact .refl s
  | settle s hr =>
    obtain ⟨launched, kept, -, -, -, heq, -⟩ := e.pass_spec s
    unfold State.settle
    split <;> (rw [heq]; exact .refl s)
  | await s hr =>
    obtain ⟨launched, kept, -, -, -, heq, -⟩ := e.pass_spec s
    rw [heq]
    exact .refl s
  | finish s t r ht hr =>
    rw [State.finish_eq]
    split <;> exact State.record_extends (s.lose t.id) r
  | drain s t r ht hr =>
    rw [State.drain_eq]
    split
    · exact State.record_extends (s.lose t.id) r
    · exact .refl s

theorem Steps.extends {a b : Snapshot} (h : Steps e a b) : a.state.Extends b.state := by
  induction h with
  | refl => exact .refl _
  | tail _ hbc ih => exact ih.trans hbc.extends

/-- Only a scheduling pass starts tasks; every other step leaves the waiting nodes as they are, and
tasks can only end. -/
theorem Step.schedules {a b : Snapshot} (h : Step e a b) :
    (b.state.started = a.state.started ∧ b.state.pending = a.state.pending ∧
      b.state.running.Sublist a.state.running) ∨
    (a.phase = .scheduling ∧ b.state.started = (e.pass a.state).started ∧
      b.state.pending = (e.pass a.state).pending ∧
      b.state.running = (e.pass a.state).running) := by
  cases h with
  | cancelPass s | cancel s | expire s | close s => exact Or.inl ⟨rfl, rfl, .refl _⟩
  | crash s | lose s => exact Or.inl ⟨rfl, rfl, List.eraseP_sublist⟩
  | settle s hr =>
    unfold State.settle
    split <;> exact Or.inr ⟨rfl, rfl, rfl, rfl⟩
  | await s hr => exact Or.inr ⟨rfl, rfl, rfl, rfl⟩
  | finish s t r ht hr =>
    rw [State.finish_eq]
    split <;> exact Or.inl ⟨rfl, rfl, List.eraseP_sublist⟩
  | drain s t r ht hr =>
    rw [State.drain_eq]
    split <;> exact Or.inl ⟨rfl, rfl, List.eraseP_sublist⟩

theorem Step.started {a b : Snapshot} (h : Step e a b) :
    b.state.started = a.state.started ∨
      a.phase = .scheduling ∧ b.state.started = (e.pass a.state).started :=
  h.schedules.imp (·.1) fun hpass => ⟨hpass.1, hpass.2.1⟩

theorem Step.isLeft {a b : Snapshot} (h : Step e a b) (ha : a.isLeft = true) : b.isLeft = true := by
  cases h <;> first | rfl | simp [Snapshot.isLeft] at ha

/-- Nothing is started once the loop is left. -/
theorem Steps.started_of_isLeft {a b : Snapshot} (h : Steps e a b) (ha : a.isLeft = true) :
    b.state.started = a.state.started := by
  have hkept : b.isLeft = true ∧ b.state.started = a.state.started := by
    induction h with
    | refl => exact ⟨ha, rfl⟩
    | tail _ hbc ih =>
      obtain ⟨hleft, hstarted⟩ := ih
      refine ⟨hbc.isLeft hleft, ?_⟩
      rcases hbc.started with hsame | ⟨hphase, -⟩
      · exact hsame.trans hstarted
      · simp [Snapshot.isLeft, hphase] at hleft
  exact hkept.2

/-! ### The start of a task -/

/-- A task is a node that its runner is given with the outputs of its dependencies in `s`. -/
structure Starts (e : Terms) (s : State) (n : PlanNode) (t : Task) : Prop where
  node : t.id = n.id
  type : t.invocation.type = n.type
  params : t.invocation.params = n.params
  runner : (select e.runners n.type).map (·.name) = some t.runner
  dependencies : ∀ d ∈ n.dependsOn, ∃ r, s.result? d = some r ∧ r.success = true
  inputIds : ∀ d, d ∈ t.invocation.inputs.map (·.1) ↔ d ∈ n.dependsOn
  /-- Inputs come in order of first listing, so that no producer is given twice. -/
  inputOrder : (t.invocation.inputs.map (·.1)).Pairwise
    fun a b => n.dependsOn.idxOf a < n.dependsOn.idxOf b
  inputs : ∀ i ∈ t.invocation.inputs, ∃ r, s.result? i.1 = some r ∧ i.2 = r.output

theorem inputs_ids {s : State} {n : PlanNode} (hn : s.isReady n = true) :
    (s.invocation n).inputs.map (·.1) = distinct n.dependsOn := by
  have h := State.invocation_inputs hn
  generalize (s.invocation n).inputs = inputs at h
  generalize distinct n.dependsOn = deps at h
  induction h with
  | nil => rfl
  | cons hhead _ ih => rw [List.map_cons, ih, hhead.1]

theorem Starts.of_isReady {s : State} {n : PlanNode} {runner : Runner}
    (hr : select e.runners n.type = some runner) (hn : s.isReady n = true) :
    Starts e s n (s.taskOf e.runnerOf n) where
  node := rfl
  type := rfl
  params := rfl
  runner := by simp [State.taskOf, Terms.runnerOf, hr]
  dependencies := State.isReady_iff.mp hn
  inputIds d := by
    rw [State.taskOf, inputs_ids hn, mem_distinct]
  inputOrder := by
    rw [State.taskOf, inputs_ids hn]
    exact distinct_pairwise n.dependsOn
  inputs i hi := by
    obtain ⟨d, -, hd⟩ := List.mem_filterMap.mp hi
    obtain ⟨r, hr, rfl⟩ := Option.map_eq_some_iff.mp hd
    exact ⟨r, hr, rfl⟩

/-- The step from `a` to `b` started the task, on what was recorded before it; `c` comes later. -/
structure StartedBy (e : Terms) (plan : Plan) (n : PlanNode) (t : Task) (a b c : Snapshot) :
    Prop where
  reached : e.Reaches plan a
  step : Step e a b
  later : Steps e b c
  new : t ∉ a.state.started
  joined : t ∈ b.state.started
  starts : Starts e a.state n t
  kept : a.state.Extends c.state

theorem StartedBy.tail {n : PlanNode} {t : Task} {a b c d : Snapshot}
    (h : StartedBy e plan n t a b c) (hcd : Step e c d) : StartedBy e plan n t a b d :=
  { h with later := h.later.tail hcd, kept := h.kept.trans hcd.extends }

/-- Up to this point a run has started nodes safely. -/
structure StartsSafely (e : Terms) (plan : Plan) (c : Snapshot) : Prop where
  once : (c.state.started.map Task.id).Nodup
  justified : ∀ t ∈ c.state.started, ∃ n ∈ plan.nodes, ∃ a b, StartedBy e plan n t a b c
  halted : c.isLeft = true ∨ c.state.halt ≠ none →
    ∀ c', Steps e c c' → c'.state.started = c.state.started

theorem Step.starts {a b : Snapshot} (h : Step e a b) (hp : startError? e.runners plan = none)
    (ha : e.Reaches plan a) {t : Task} (hb : t ∈ b.state.started) (hnew : t ∉ a.state.started) :
    ∃ n ∈ plan.nodes, Starts e a.state n t := by
  obtain ⟨haccepted, hcovered⟩ := Plan.startError?_eq_none_iff.mp hp
  have hinv := Invariant.of_reaches haccepted ha
  rcases h.started with hsame | ⟨-, hpass⟩
  · exact absurd (hsame ▸ hb) hnew
  · obtain ⟨launched, kept, hperm, -, hready, heq, -⟩ := e.pass_spec a.state
    rw [hpass, heq] at hb
    obtain ⟨n, hn, rfl⟩ := List.mem_map.mp ((List.mem_append.mp hb).resolve_left hnew)
    have hplanned : n ∈ plan.nodes :=
      hinv.consistent.planned (hperm.subset (List.mem_append_left _ hn))
    obtain ⟨runner, hrunner⟩ := hcovered n hplanned
    exact ⟨n, hplanned, .of_isReady hrunner (hready n hn)⟩

theorem startsSafely_of_reaches (hp : startError? e.runners plan = none) {c : Snapshot}
    (hc : e.Reaches plan c) : StartsSafely e plan c where
  once := by
    have haccepted := (Plan.startError?_eq_none_iff.mp hp).1
    exact (Invariant.of_reaches haccepted hc).consistent.started_nodup haccepted
  justified := by
    refine hc.induct (p := fun c => ∀ t ∈ c.state.started, ∃ n ∈ plan.nodes, ∃ a b,
      StartedBy e plan n t a b c) (by simp [Snapshot.initial, State.initial])
      fun a b ha ih hstep t ht => ?_
    by_cases hold : t ∈ a.state.started
    · obtain ⟨n, hn, a₀, b₀, hstarted⟩ := ih t hold
      exact ⟨n, hn, a₀, b₀, hstarted.tail hstep⟩
    · obtain ⟨n, hn, hstarts⟩ := hstep.starts hp ha ht hold
      exact ⟨n, hn, a, b, ha, hstep, .refl, hold, ht, hstarts, hstep.extends⟩
  halted := by
    intro h c' hsteps
    have hinv := Invariant.of_reaches (Plan.startError?_eq_none_iff.mp hp).1 hc
    refine Steps.started_of_isLeft hsteps (h.elim id fun hhalt => ?_)
    by_contra hleft
    exact hhalt (hinv.going (Bool.eq_false_iff.mpr hleft))

/-- The run of the chain in which both nodes have been started. -/
def chainLater : State :=
  (echo {}).pass (((echo {}).pass (.initial chainPlan)).finish "a" (.succeed "a" (.str "a")))

theorem reaches_chainLater : (echo {}).Reaches chainPlan ⟨.waiting, chainLater⟩ := by
  have hrunning : ((echo {}).pass (.initial chainPlan)).running.map Task.id = ["a"] := by decide
  have hlater : chainLater.running.map Task.id = ["b"] := by decide
  obtain ⟨t, ht, hid⟩ : ∃ t ∈ ((echo {}).pass (.initial chainPlan)).running, t.id = "a" :=
    List.mem_map.mp (hrunning ▸ List.mem_singleton_self _)
  have hawait : Step (echo {}) (.initial chainPlan)
      ⟨.waiting, (echo {}).pass (.initial chainPlan)⟩ :=
    .await _ fun hnil => by simp [hnil] at hrunning
  have hfinish := Step.finish (e := echo {}) _ t (.succeed "a" (.str "a")) ht (by rw [← hid]; rfl)
  rw [hid] at hfinish
  have hagain := Step.await (e := echo {})
    (((echo {}).pass (.initial chainPlan)).finish "a" (.succeed "a" (.str "a"))) fun hnil => by
      rw [chainLater, hnil] at hlater
      cases hlater
  exact ((Relation.ReflTransGen.single hawait).tail hfinish).tail hagain

theorem chainPlan_startsSafely :
    startError? (echo {}).runners chainPlan = none ∧
      (echo {}).Reaches chainPlan ⟨.waiting, chainLater⟩ ∧
      chainLater.started.map (fun t => (t.id, t.invocation.inputs.map (·.1))) =
        [("a", []), ("b", ["a"])] ∧ StartsSafely (echo {}) chainPlan ⟨.waiting, chainLater⟩ :=
  ⟨rfl, reaches_chainLater, by decide, startsSafely_of_reaches rfl reaches_chainLater⟩

end Flowline.Engine
