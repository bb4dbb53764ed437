import Flowline.Proofs.Engine.Loop

/-!
# What the result of a run says

The status, the error and the results of a run fit together, whatever ended it: a complete run has
a success for each node, a run that a node ended has that one failure, and any other run has no
failure at all. For this a runner has to answer under the id of the node that it was given.
-/
namespace Flowline.Engine

variable {e : Terms} {plan : Plan} {s : State}

/-! ### The results of a run -/

theorem Consistent.outcome_perm (h : Consistent e plan s) (runId pipelineId : String) :
    (s.outcome runId pipelineId).results.Perm s.results := sortedByKey_perm h.keys

theorem Consistent.result?_of_mem (h : Consistent e plan s) {p : String × NodeResult}
    (hp : p ∈ s.results) : s.result? p.1 = some p.2 := lookup_of_mem h.keys hp

/-! ### What ended a run -/

/-- The result of a run that was halted like this, or not at all, fits its status and its error. -/
structure SumsUp (plan : Plan) (halt : Option Halt) (r : RunResult) : Prop where
  status : r.status = (halt.map Halt.status).getD .completed
  error : r.error = halt.map Halt.message
  /-- Results are those of nodes of the plan, each under its own id and there once. -/
  keyed : (r.results.map (·.1)).Nodup ∧ ∀ p ∈ r.results, p.1 ∈ plan.ids ∧ p.2.node = p.1
  completed : r.status = .completed →
    r.error = none ∧ (r.results.map (·.1)).Perm plan.ids ∧ ∀ p ∈ r.results, p.2.success = true
  /-- The node that ended the run is the only one that failed. -/
  nodeFailed : ∀ id message, halt = some (.nodeFailed id message) →
    r.status = .failed ∧ r.error = some s!"node '{id}' failed: {message}" ∧
      ∃ q, q.errorMessage = message ∧ r.results.filter (fun p => !p.2.success) = [(id, q)]
  cancelled : r.status = .cancelled → ∀ p ∈ r.results, p.2.success = true
  /-- Nor has a node failed when time was up, when nothing could go on, or when a task crashed. -/
  failed : r.status = .failed → (∀ id message, halt ≠ some (.nodeFailed id message)) →
    ∀ p ∈ r.results, p.2.success = true
  grounded : ∀ n ∈ plan.nodes, (r.result? n.id).isSome = true →
    ∀ d ∈ n.dependsOn, ∃ q, r.result? d = some q ∧ q.success = true

theorem Halt.status_ne_completed (h : Halt) : h.status ≠ .completed := by
  cases h <;> simp [Halt.status]

namespace Invariant

variable {c : Snapshot}

/-- Unless a node has halted the run, no node has failed. -/
theorem success (h : Invariant e plan c)
    (hhalt : ∀ id message, c.state.halt ≠ some (.nodeFailed id message)) {p : String × NodeResult}
    (hp : p ∈ c.state.results) : p.2.success = true := by
  by_contra hfail
  exact hhalt _ _
    (h.accounted.failed _ _ (h.consistent.result?_of_mem hp) (Bool.eq_false_iff.mpr hfail))

theorem failures (h : Invariant e plan c) {id message : String}
    (hhalt : c.state.halt = some (.nodeFailed id message)) :
    ∃ q, q.errorMessage = message ∧
      (c.state.results.filter fun p => !p.2.success).Perm [(id, q)] := by
  obtain ⟨q, hq, hfail, rfl⟩ := h.accounted.named id message hhalt
  have hnodup : c.state.results.Nodup := h.consistent.keys.of_map _
  refine ⟨q, rfl, (List.perm_ext_iff_of_nodup (hnodup.filter _) (List.nodup_singleton _)).mpr ?_⟩
  intro p
  rw [List.mem_filter, List.mem_singleton, Bool.not_eq_true']
  constructor
  · rintro ⟨hp, hpfail⟩
    -- A second failure would have halted the run under another id.
    have hres := h.consistent.result?_of_mem hp
    have hsame := h.accounted.failed _ _ hres hpfail
    rw [hhalt, Option.some.injEq, Halt.nodeFailed.injEq] at hsame
    rw [← hsame.1, hq, Option.some.injEq] at hres
    exact Prod.ext hsame.1.symm hres.symm
  · rintro rfl
    exact ⟨mem_of_lookup hq, hfail⟩

/-- A node has a result only if its dependencies have succeeded. -/
theorem isReady (h : Invariant e plan c) (hp : plan.Accepted) {n : PlanNode} (hn : n ∈ plan.nodes)
    (hres : (c.state.result? n.id).isSome = true) : c.state.isReady n = true := by
  obtain ⟨r, hr⟩ := Option.isSome_iff_exists.mp hres
  obtain ⟨t, ht, hid, -⟩ := h.consistent.answered n.id r hr
  obtain ⟨m, hm, hready, rfl⟩ := h.consistent.justified t ht
  obtain rfl : m = n := hp.eq_of_id_eq hm hn hid
  exact hready

theorem sumsUp (h : Invariant e plan c) (hp : plan.Accepted) (hend : c.phase = .ended)
    (runId pipelineId : String) :
    SumsUp plan c.state.halt (c.state.outcome runId pipelineId) := by
  have hperm := h.consistent.outcome_perm runId pipelineId
  have hall : (∀ id message, c.state.halt ≠ some (.nodeFailed id message)) →
      ∀ p ∈ (c.state.outcome runId pipelineId).results, p.2.success = true :=
    fun hhalt p hmem => h.success hhalt (hperm.subset hmem)
  have hstatus : (c.state.outcome runId pipelineId).status =
      (c.state.halt.map Halt.status).getD .completed := rfl
  exact {
    status := rfl
    error := rfl
    keyed := by
      refine ⟨(hperm.map _).nodup_iff.mpr h.consistent.keys, fun p hmem => ?_⟩
      have hold := hperm.subset hmem
      refine ⟨h.consistent.mem_ids (h.consistent.result?_of_mem hold), ?_⟩
      rw [h.consistent.recorded] at hold
      obtain ⟨r, -, rfl⟩ := List.mem_map.mp hold
      rfl
    completed := by
      intro hdone
      cases hhalt : c.state.halt with
      | some halt =>
        rw [hstatus, hhalt] at hdone
        exact absurd hdone halt.status_ne_completed
      | none =>
        refine ⟨congrArg (Option.map Halt.message) hhalt, ?_, hall (by simp [hhalt])⟩
        exact (hperm.map _).trans (h.consistent.results_perm hp (h.allSucceeded hp hend hhalt))
    nodeFailed := by
      intro id message hhalt
      obtain ⟨q, hq, hfailures⟩ := h.failures hhalt
      refine ⟨by rw [hstatus, hhalt]; rfl, congrArg (Option.map Halt.message) hhalt, q, hq, ?_⟩
      exact List.perm_singleton.mp ((hperm.filter _).trans hfailures)
    cancelled := by
      intro hcancelled
      refine hall fun id message hhalt => ?_
      rw [hstatus, hhalt] at hcancelled
      cases hcancelled
    failed := fun _ => hall
    grounded := by
      intro n hn hres d hd
      rw [h.consistent.result?_outcome] at hres
      obtain ⟨q, hq, hok⟩ := State.isReady_iff.mp (h.isReady hp hn hres) d hd
      exact ⟨q, (h.consistent.result?_outcome runId pipelineId d).trans hq, hok⟩ }

end Invariant

/-- However a run of an accepted plan ends, its result sums it up; so does the result of the engine
on any host that answers for the nodes it is given. -/
theorem outcome_sumsUp (hp : planFault? plan = none) :
    (∀ s, e.Reaches plan ⟨.ended, s⟩ →
      ∀ runId, SumsUp plan s.halt (s.outcome runId plan.id)) ∧
    ∀ (σ : Type) (host : Host σ), host.Serves e → ∀ runId w w' s,
      run host e.settings plan runId w = (.ok s, w') →
        SumsUp plan s.halt (s.outcome runId plan.id) := by
  have haccepted := Plan.planFault?_eq_none_iff.mp hp
  have hreached : ∀ s, e.Reaches plan ⟨.ended, s⟩ →
      ∀ runId, SumsUp plan s.halt (s.outcome runId plan.id) := fun s hs runId =>
    (Invariant.of_reaches haccepted hs).sumsUp haccepted rfl runId plan.id
  exact ⟨hreached, fun σ host hhost runId w w' s hrun =>
    hreached s (reaches_run hhost hrun).2 runId⟩

/-! ### Reports of a node -/

/-- Executes every node with its own id for its output, and reports that under another id. -/
def relay (report : String → String) : Host Unit where
  runners := (echo {}).runners
  cancelledAt _ := none
  execute t _ _ w := ((.succeed (report t.id) (.str t.id), 0), w)
  stop _ w := w

theorem relay_serves : (relay id).Serves (echo {}) where
  runners := rfl
  answers _ _ _ := rfl
  late _ _ _ := Or.inl rfl

theorem chainPlan_sumsUp : planFault? chainPlan = none ∧ ∃ s,
    run (relay id) {} chainPlan "run" () = (.ok s, ()) ∧ s.status = .completed ∧
      SumsUp chainPlan s.halt (s.outcome "run" chainPlan.id) :=
  ⟨rfl, (finalState (relay id) {} chainPlan "run" ()).1, rfl, by decide,
    (outcome_sumsUp (e := echo {}) rfl).2 Unit (relay id) relay_serves "run" () () _ rfl⟩

/-- A single node. -/
def lonePlan : Plan :=
  { (default : Plan) with nodes := [{ (default : PlanNode) with id := "A" }], order := ["A"] }

/-- A runner that reports under another id leaves a complete run without the result of its node. -/
theorem relay_strays : startError? (relay fun _ => "Z").runners lonePlan = none ∧ ∃ s,
    run (relay fun _ => "Z") {} lonePlan "run" () = (.ok s, ()) ∧
      (s.outcome "run" lonePlan.id).status = .completed ∧
      (s.outcome "run" lonePlan.id).results.map (·.1) = ["Z"] ∧
      ¬ SumsUp lonePlan s.halt (s.outcome "run" lonePlan.id) := by
  refine ⟨rfl, (finalState (relay fun _ => "Z") {} lonePlan "run" ()).1, rfl, by decide, by decide,
    fun h => ?_⟩
  have hperm := (h.completed (by decide)).2.1
  exact absurd (hperm.mem_iff (a := "A")) (by decide)

end Flowline.Engine
