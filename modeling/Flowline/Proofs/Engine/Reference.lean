import Flowline.Proofs.Engine.Progress

/-!
# Independence of the schedule

When runners compute their results, a run comes to what evaluating the nodes one by one, in the
order of the plan, comes to: it does not matter how many nodes run at once nor in which order they
end.
-/
namespace Flowline

/-- The result without the times that were measured. -/
def NodeResult.untimed (r : NodeResult) : NodeResult :=
  { r with elapsed := 0, usage := r.usage.map ({ · with elapsed := 0 }) }

theorem NodeResult.untimed_success {r q : NodeResult} (h : r.untimed = q.untimed) :
    r.success = q.success := by
  change r.untimed.success = q.untimed.success
  rw [h]

theorem NodeResult.untimed_output {r q : NodeResult} (h : r.untimed = q.untimed) :
    r.output = q.output := by
  change r.untimed.output = q.untimed.output
  rw [h]

theorem NodeResult.untimed_node {r q : NodeResult} (h : r.untimed = q.untimed) :
    r.node = q.node := by
  change r.untimed.node = q.untimed.node
  rw [h]

namespace Engine

variable {e : Terms} {plan : Plan} {f : Task → NodeResult} {runnerOf : String → String}

/-- The runners compute `f`, up to times. -/
structure Terms.Computes (e : Terms) (f : Task → NodeResult) : Prop where
  sound : ∀ t r, e.answers t r → r.untimed = (f t).untimed
  total : ∀ t, ∃ r, e.answers t r

theorem Terms.Computes.node (h : e.Computes f) (t : Task) : (f t).node = t.id := by
  obtain ⟨r, hr⟩ := h.total t
  rw [← e.answer_node t r hr, NodeResult.untimed_node (h.sound t r hr)]

/-! ### The reference -/

/-- Evaluates a node if its dependencies have been evaluated to successes. -/
def evaluate (runnerOf : String → String) (f : Task → NodeResult) (s : State) (n : PlanNode) :
    State :=
  if s.isReady n then s.record (f (s.taskOf runnerOf n)) else s

/-- Evaluates the nodes of a plan in its order. -/
def reference (runnerOf : String → String) (f : Task → NodeResult) (plan : Plan) : State :=
  plan.inOrder.foldl (evaluate runnerOf f) { pending := [] }

theorem result?_evaluate (hf : ∀ t, (f t).node = t.id) (s : State) (n : PlanNode) (id : String) :
    (evaluate runnerOf f s n).result? id =
      (s.result? id).or (if id = n.id ∧ s.isReady n = true then some (f (s.taskOf runnerOf n))
        else none) := by
  unfold evaluate
  by_cases hn : s.isReady n = true
  · simp [hn, State.result?_record, hf]
  · simp [hn]

theorem result?_foldl_evaluate (hf : ∀ t, (f t).node = t.id) {nodes : List PlanNode} {id : String}
    (hid : id ∉ nodes.map (·.id)) (s : State) :
    (nodes.foldl (evaluate runnerOf f) s).result? id = s.result? id := by
  induction nodes generalizing s with
  | nil => rfl
  | cons n nodes ih =>
    simp only [List.map_cons, List.mem_cons, not_or] at hid
    rw [List.foldl_cons, ih hid.2, result?_evaluate hf]
    simp [hid.1]

/-- The reference evaluates exactly the nodes whose dependencies it evaluates to successes. -/
theorem result?_reference (hf : ∀ t, (f t).node = t.id) (hp : plan.Ordered) {n : PlanNode}
    (hn : n ∈ plan.nodes) : (reference runnerOf f plan).result? n.id =
      if (reference runnerOf f plan).isReady n = true
        then some (f ((reference runnerOf f plan).taskOf runnerOf n)) else none := by
  have hmem : n ∈ plan.inOrder := List.mem_filterMap.mpr
    ⟨n.id, hp.perm.symm.subset (Plan.mem_ids hn), hp.accepted.node?_eq hn⟩
  obtain ⟨earlier, later, hsplit⟩ := List.append_of_mem hmem
  have horder : plan.order = earlier.map (·.id) ++ n.id :: later.map (·.id) := by
    rw [← hp.accepted.inOrder_ids, hsplit, List.map_append, List.map_cons]
  have hnodup : (earlier.map (·.id) ++ n.id :: later.map (·.id)).Nodup := horder ▸ hp.nodup
  obtain ⟨-, hnodup', hdisjoint⟩ := List.nodup_append.mp hnodup
  have hbefore : n.id ∉ earlier.map (·.id) := fun h => hdisjoint _ h _ List.mem_cons_self rfl
  have hafter : n.id ∉ later.map (·.id) := (List.nodup_cons.mp hnodup').1
  generalize hs : earlier.foldl (evaluate runnerOf f) { pending := [] } = s
  have href : reference runnerOf f plan =
      later.foldl (evaluate runnerOf f) (evaluate runnerOf f s n) := by
    rw [reference, hsplit, List.foldl_append, List.foldl_cons, hs]
  have hnew : s.result? n.id = none := by
    rw [← hs, result?_foldl_evaluate hf hbefore]
    rfl
  have hagree : (reference runnerOf f plan).AgreesOn s n := by
    intro d hd
    have hlt : plan.order.idxOf d < plan.order.idxOf n.id := hp.before n hn d hd
    rw [horder, List.idxOf_append_of_notMem hbefore, List.idxOf_cons_self, Nat.add_zero] at hlt
    have hd' : d ∈ earlier.map (·.id) := by
      by_contra hnot
      rw [List.idxOf_append_of_notMem hnot] at hlt
      omega
    have hdn : d ≠ n.id := fun h => hbefore (h ▸ hd')
    have hdl : d ∉ later.map (·.id) := fun h => hdisjoint _ hd' _ (List.mem_cons_of_mem _ h) rfl
    rw [href, result?_foldl_evaluate hf hdl, result?_evaluate hf]
    simp [hdn]
  rw [hagree.isReady_eq, State.taskOf, hagree.invocation_eq, href, result?_foldl_evaluate hf hafter,
    result?_evaluate hf, hnew]
  simp [State.taskOf]

/-! ### Runs against the reference -/

/-- Every result that a run records is the one of the reference. -/
theorem result?_of_reaches (hf : e.Computes f) (hp : plan.Ordered) {c : Snapshot}
    (hc : e.Reaches plan c) {n : PlanNode} (hn : n ∈ plan.nodes) {r : NodeResult}
    (hr : c.state.result? n.id = some r) :
    ∃ q, (reference e.runnerOf f plan).result? n.id = some q ∧ r.untimed = q.untimed := by
  have hinv := Invariant.of_reaches hp.accepted hc
  refine hinv.consistent.results_induction hp (p := fun n r =>
    ∃ q, (reference e.runnerOf f plan).result? n.id = some q ∧ r.untimed = q.untimed)
    (fun n hn r hready hanswer hdeps => ?_) hn hr
  have hagree : c.state.AgreesOn (reference e.runnerOf f plan) n := by
    intro d hd
    obtain ⟨r, hr, -⟩ := State.isReady_iff.mp hready d hd
    obtain ⟨m, hm, rfl⟩ := List.mem_map.mp (hp.accepted.known n hn d hd)
    obtain ⟨q, hq, hrq⟩ := hdeps m hm hd r hr
    rw [hr, hq, Option.map_some, Option.map_some, NodeResult.untimed_success hrq,
      NodeResult.untimed_output hrq]
  refine ⟨f (c.state.taskOf e.runnerOf n), ?_, hf.sound _ _ hanswer⟩
  rw [result?_reference hf.node hp hn, ← hagree.isReady_eq, if_pos hready, State.taskOf,
    ← hagree.invocation_eq]
  rfl

/-- The reference evaluates nodes of the plan only. -/
theorem mem_ids_of_reference (hf : ∀ t, (f t).node = t.id) (hp : plan.Ordered) {id : String}
    {q : NodeResult} (hq : (reference runnerOf f plan).result? id = some q) : id ∈ plan.ids := by
  refine hp.perm.subset ?_
  by_contra hid
  rw [← hp.accepted.inOrder_ids] at hid
  rw [reference, result?_foldl_evaluate hf hid] at hq
  cases hq

/-- A node that the reference does not evaluate has a dependency that fails or is not evaluated
either; following these leads to one that fails. -/
theorem reference_cases (hf : ∀ t, (f t).node = t.id) (hp : plan.Ordered) :
    (reference runnerOf f plan).allSucceeded plan ∨
      ∃ id q, (reference runnerOf f plan).result? id = some q ∧ q.success = false := by
  by_cases hfail : ∃ id q, (reference runnerOf f plan).result? id = some q ∧ q.success = false
  · exact Or.inr hfail
  have hsuccess : ∀ id q, (reference runnerOf f plan).result? id = some q → q.success = true := by
    intro id q hq
    by_contra hnot
    exact hfail ⟨id, q, hq, Bool.eq_false_iff.mpr hnot⟩
  refine Or.inl fun n hn => ?_
  generalize hk : plan.order.idxOf n.id = k
  induction k using Nat.strongRecOn generalizing n with
  | ind k ih =>
    have hready : (reference runnerOf f plan).isReady n = true := by
      refine State.isReady_iff.mpr fun d hd => ?_
      obtain ⟨m, hm, rfl⟩ := List.mem_map.mp (hp.accepted.known n hn d hd)
      exact ih _ (hk ▸ hp.before n hn m.id hd) m hm rfl
    have hres : (reference runnerOf f plan).result? n.id = _ := result?_reference hf hp hn
    rw [if_pos hready] at hres
    exact ⟨_, hres, hsuccess _ _ hres⟩

/-- What a run is left with, against the evaluation of the nodes one by one. -/
structure AgreesWith (ref : State) (plan : Plan) (r : RunResult) : Prop where
  completed : ref.allSucceeded plan → r.status = .completed ∧
    ∀ id, (r.result? id).map NodeResult.untimed = (ref.result? id).map NodeResult.untimed
  failed : (∃ id q, ref.result? id = some q ∧ q.success = false) → r.status = .failed ∧
    ∀ id q, r.result? id = some q → (ref.result? id).map NodeResult.untimed = some q.untimed

namespace Terms.EndsIn

variable {s : State}

theorem result?_reference (hf : e.Computes f) (hp : plan.Ordered) (h : e.EndsIn plan s)
    {id : String} {r : NodeResult} (hr : s.result? id = some r) :
    ∃ q, (reference e.runnerOf f plan).result? id = some q ∧ r.untimed = q.untimed := by
  have hc := (Invariant.of_reaches hp.accepted h.reaches).consistent
  obtain ⟨n, hn, rfl⟩ := List.mem_map.mp (hc.mem_ids hr)
  exact result?_of_reaches hf hp h.reaches hn hr

theorem halt_eq_none (hf : e.Computes f) (hp : plan.Ordered) (h : e.EndsIn plan s)
    (hall : (reference e.runnerOf f plan).allSucceeded plan) :
    s.halt = none ∧ s.allSucceeded plan := by
  rcases h.cases hp with hdone | ⟨id, r, hr, hfail, -⟩
  · exact hdone
  · -- A recorded failure would be one of the reference.
    have hc := (Invariant.of_reaches hp.accepted h.reaches).consistent
    obtain ⟨n, hn, rfl⟩ := List.mem_map.mp (hc.mem_ids hr)
    obtain ⟨q, hq, hrq⟩ := h.result?_reference hf hp hr
    obtain ⟨q', hq', hok⟩ := hall n hn
    obtain rfl : q = q' := Option.some.inj (hq.symm.trans hq')
    rw [NodeResult.untimed_success hrq, hok] at hfail
    cases hfail

theorem status_eq_failed (hf : e.Computes f) (hp : plan.Ordered) (h : e.EndsIn plan s) {id : String}
    {q : NodeResult} (hq : (reference e.runnerOf f plan).result? id = some q)
    (hfail : q.success = false) : s.status = .failed := by
  rcases h.cases hp with ⟨-, hsucc⟩ | ⟨_, _, _, _, hhalt⟩
  · obtain ⟨n, hn, rfl⟩ := List.mem_map.mp (mem_ids_of_reference hf.node hp hq)
    obtain ⟨r, hr, hok⟩ := hsucc n hn
    obtain ⟨q', hq', hrq⟩ := h.result?_reference hf hp hr
    obtain rfl : q = q' := Option.some.inj (hq.symm.trans hq')
    rw [NodeResult.untimed_success hrq, hfail] at hok
    cases hok
  · rw [State.status, hhalt]
    rfl

/-- When all nodes succeed, a run records what the reference evaluates and nothing else. -/
theorem result?_eq (hf : e.Computes f) (hp : plan.Ordered) (h : e.EndsIn plan s)
    (hsucc : s.allSucceeded plan) (id : String) : (s.result? id).map NodeResult.untimed =
      ((reference e.runnerOf f plan).result? id).map NodeResult.untimed := by
  cases hr : s.result? id with
  | some r =>
    obtain ⟨q, hq, hrq⟩ := h.result?_reference hf hp hr
    rw [hq, Option.map_some, Option.map_some, hrq]
  | none =>
    cases hq : (reference e.runnerOf f plan).result? id with
    | none => rfl
    | some q =>
      obtain ⟨n, hn, rfl⟩ := List.mem_map.mp (mem_ids_of_reference hf.node hp hq)
      obtain ⟨r, hr', -⟩ := hsucc n hn
      rw [hr] at hr'
      cases hr'

theorem agreesWith (hf : e.Computes f) (hp : plan.Ordered) (h : e.EndsIn plan s) (runId : String) :
    AgreesWith (reference e.runnerOf f plan) plan (s.outcome runId plan.id) := by
  have hc := (Invariant.of_reaches hp.accepted h.reaches).consistent
  refine ⟨fun hall => ?_, fun ⟨id, q, hq, hfail⟩ => ?_⟩
  · obtain ⟨hhalt, hsucc⟩ := h.halt_eq_none hf hp hall
    refine ⟨by rw [State.outcome, State.status, hhalt]; rfl, fun id => ?_⟩
    rw [hc.result?_outcome]
    exact h.result?_eq hf hp hsucc id
  · refine ⟨h.status_eq_failed hf hp hq hfail, fun id r hr => ?_⟩
    rw [hc.result?_outcome] at hr
    obtain ⟨q, hq, hrq⟩ := h.result?_reference hf hp hr
    rw [hq, Option.map_some, hrq]

end Terms.EndsIn

/-- Two runs of a plan under different settings end with the same status, and with what the nodes
come to one by one. -/
theorem schedule_independent (hp : plan.Ordered) {e₁ e₂ : Terms} (h₁ : e₁.Computes f)
    (h₂ : e₂.Computes f) (hsame : e₁.runners = e₂.runners) :
    e₁.Terminates plan ∧ e₂.Terminates plan ∧ ∀ s₁ s₂, e₁.EndsIn plan s₁ → e₂.EndsIn plan s₂ →
      s₁.status = s₂.status ∧ ∀ runId,
        AgreesWith (reference e₁.runnerOf f plan) plan (s₁.outcome runId plan.id) ∧
        AgreesWith (reference e₁.runnerOf f plan) plan (s₂.outcome runId plan.id) := by
  have hrunner : e₂.runnerOf = e₁.runnerOf := by
    funext type
    rw [Terms.runnerOf, Terms.runnerOf, hsame]
  refine ⟨terminates h₁.total plan, terminates h₂.total plan, fun s₁ s₂ hs₁ hs₂ => ?_⟩
  have hagree₁ := hs₁.agreesWith h₁ hp
  have hagree₂ := hs₂.agreesWith h₂ hp
  rw [hrunner] at hagree₂
  refine ⟨?_, fun runId => ⟨hagree₁ runId, hagree₂ runId⟩⟩
  have hcases : (reference e₁.runnerOf f plan).allSucceeded plan ∨ _ := reference_cases h₁.node hp
  rcases hcases with hall | hfail
  · exact ((hagree₁ "").completed hall).1.trans ((hagree₂ "").completed hall).1.symm
  · exact ((hagree₁ "").failed hfail).1.trans ((hagree₂ "").failed hfail).1.symm

theorem chainPlan_ordered : chainPlan.Ordered where
  nodup := by decide
  perm := .refl _
  before := by decide

theorem echo_computes (settings : EngineSettings) :
    (echo settings).Computes fun t => .succeed t.id (.str t.id) where
  sound := by
    rintro t r rfl
    rfl
  total t := ⟨_, rfl⟩

theorem chainPlan_schedule_independent :
    (echo {}).Terminates chainPlan ∧ (echo { parallel := false }).Terminates chainPlan ∧
      ∀ s₁ s₂, (echo {}).EndsIn chainPlan s₁ → (echo { parallel := false }).EndsIn chainPlan s₂ →
        s₁.status = s₂.status ∧ ∀ runId,
          AgreesWith (reference (echo {}).runnerOf (fun t => .succeed t.id (.str t.id)) chainPlan)
            chainPlan (s₁.outcome runId chainPlan.id) ∧
          AgreesWith (reference (echo {}).runnerOf (fun t => .succeed t.id (.str t.id)) chainPlan)
            chainPlan (s₂.outcome runId chainPlan.id) :=
  schedule_independent chainPlan_ordered (echo_computes {})
    (echo_computes { parallel := false }) rfl

end Engine
end Flowline
