import Flowline.Proofs.Engine.Outcome
import Flowline.Proofs.Engine.Start

/-!
# Use of the bound on concurrency

No more tasks run at once than the settings allow, and a run waits for a task to end only where it
could not start another one. This holds whatever runners answer. Where they answer under the id of
the node that they are given and one task may run at a time, nodes are started in the order of the
plan.
-/
namespace Flowline.Engine

variable {e : Terms} {plan : Plan} {s : State}

/-! ### Scheduling under a bound -/

namespace State

theorem of_hasRoom_eq_false {limit : Option Nat} (hs : s.hasRoom limit = false) :
    ∃ k, limit = some k ∧ k ≤ s.running.length := by
  cases limit with
  | none => cases hs
  | some k => exact ⟨k, rfl, by simpa [hasRoom] using hs⟩

/-- Without room nothing is started. -/
theorem startReady_full {limit : Option Nat} {runnerOf : String → String}
    (hs : s.hasRoom limit = false) (nodes : List PlanNode) :
    startReady limit runnerOf s nodes = { s with pending := s.pending ++ nodes } := by
  induction nodes generalizing s with
  | nil => rw [startReady, List.append_nil]
  | cons n rest ih =>
    have hkept : State.hasRoom { s with pending := s.pending ++ [n] } limit = false := hs
    rw [startReady, if_neg (by simp [hs]), ih hkept, List.append_assoc, List.singleton_append]

/-- A pass starts tasks up to the bound and no further. -/
theorem length_startReady {k : Nat} {runnerOf : String → String} (hs : s.running.length ≤ k)
    (nodes : List PlanNode) :
    (startReady (some k) runnerOf s nodes).running.length ≤ k := by
  induction nodes generalizing s with
  | nil => exact hs
  | cons n rest ih =>
    unfold startReady
    split
    · rename_i hn
      have hroom : s.running.length < k := by
        simpa [hasRoom] using (Bool.and_eq_true_iff.mp hn).1
      refine ih ?_
      rw [State.start, List.length_append]
      exact hroom
    · exact ih hs

end State

/-! ### Runners that answer anything -/

/-- One turn of the loop in which a runner may also answer what the terms leave out, under the id of
another node too. -/
inductive Turn (e : Terms) : Snapshot → Snapshot → Prop where
  | step {a b : Snapshot} (h : Step e a b) : Turn e a b
  | stray (s : State) (t : Task) (r : NodeResult) (ht : t ∈ s.running) :
      Turn e ⟨.waiting, s⟩ ⟨if r.success then .scheduling else .draining, s.finish t.id r⟩
  | strayLate (s : State) (t : Task) (r : NodeResult) (ht : t ∈ s.running) :
      Turn e ⟨.draining, s⟩ ⟨.draining, s.drain t.id r⟩

/-- With runners that answer anything the run of a plan may come to this point. -/
def Terms.MayReach (e : Terms) (plan : Plan) (c : Snapshot) : Prop :=
  Relation.ReflTransGen (Turn e) (.initial plan) c

theorem Turn.running {a b : Snapshot} (h : Turn e a b) :
    b.state.running.Sublist a.state.running ∨ b.state.running = (e.pass a.state).running := by
  cases h with
  | step h => exact h.schedules.imp (·.2.2) (·.2.2.2)
  | stray s t r ht =>
    rw [State.finish_eq]
    split <;> exact Or.inl List.eraseP_sublist
  | strayLate s t r ht =>
    rw [State.drain_eq]
    split <;> exact Or.inl List.eraseP_sublist

/-- Only a scheduling pass leads to the wait for a task. -/
theorem Turn.waits {a b : Snapshot} (h : Turn e a b) (hb : b.phase = .waiting) :
    b.state = e.pass a.state := by
  cases h with
  | step h =>
    cases h with
    | await s hr => rfl
    | finish s t r ht hr =>
      simp only at hb
      split at hb <;> cases hb
    | _ => cases hb
  | stray s t r ht =>
    simp only at hb
    split at hb <;> cases hb
  | strayLate s t r ht => cases hb

theorem length_running_le {k : Nat} (hlimit : e.settings.limit = some k) {c : Snapshot}
    (hc : e.MayReach plan c) : c.state.running.length ≤ k := by
  induction hc with
  | refl => exact Nat.zero_le k
  | @tail b _ _ hturn ih =>
    rcases hturn.running with hsub | hpass
    · exact hsub.length_le.trans ih
    · rw [hpass, Terms.pass, hlimit, State.schedule]
      exact State.length_startReady (s := { b.state with pending := [] }) ih _

/-- What waits together with a running task was passed over in the last pass: for want of room, or
because it was not ready. -/
theorem passed_over {c : Snapshot} (hc : e.MayReach plan c) (hw : c.phase = .waiting) :
    c.state.hasRoom e.settings.limit = false ∨
      ∀ n ∈ c.state.pending, c.state.isReady n = false := by
  rcases Relation.ReflTransGen.cases_tail hc with rfl | ⟨b, -, hturn⟩
  · cases hw
  · obtain ⟨launched, kept, -, -, -, heq, hroom⟩ := e.pass_spec b.state
    rw [hturn.waits hw]
    refine (Bool.eq_false_or_eq_true _).symm.imp_right fun htrue => ?_
    have hstuck := hroom htrue
    rw [heq]
    exact hstuck

/-- At this point a run makes use of the bound on concurrency and keeps it. -/
structure UsesBound (e : Terms) (c : Snapshot) : Prop where
  bounded : ∀ k, e.settings.limit = some k → c.state.running.length ≤ k
  /-- While the run waits for a task to end it could not start another one. -/
  busy : c.phase = .waiting →
    (∃ k, e.settings.limit = some k ∧ c.state.running.length = k) ∨
      ∀ n ∈ c.state.pending,
        ¬ ∀ d ∈ n.dependsOn, ∃ r, c.state.result? d = some r ∧ r.success = true

theorem usesBound_of_mayReach {c : Snapshot} (hc : e.MayReach plan c) : UsesBound e c where
  bounded k hlimit := length_running_le hlimit hc
  busy hw := by
    refine (passed_over hc hw).imp (fun hfull => ?_) fun hstuck n hn hready => ?_
    · obtain ⟨k, hlimit, hk⟩ := State.of_hasRoom_eq_false hfull
      exact ⟨k, hlimit, (length_running_le hlimit hc).antisymm hk⟩
    · have hnot := hstuck n hn
      rw [State.isReady_iff.mpr hready] at hnot
      cases hnot

/-! ### One task at a time -/

namespace State

/-- The next waiting node is started if it is ready, and then no other one. -/
theorem schedule_idle (runnerOf : String → String) (hr : s.running = []) {n : PlanNode}
    {rest : List PlanNode} (hpending : s.pending = n :: rest) (hn : s.isReady n = true) :
    (s.schedule (some 1) runnerOf).started = s.started ++ [s.taskOf runnerOf n] ∧
      (s.schedule (some 1) runnerOf).pending = rest := by
  have hroom : State.hasRoom { s with pending := [] } (some 1) = true := by simp [hasRoom, hr]
  have hready : State.isReady { s with pending := [] } n = true := hn
  have hfull : (State.start { s with pending := [] } (runnerOf n.type) n).hasRoom (some 1) =
      false := by simp [hasRoom, start]
  rw [schedule, hpending, startReady, hroom, hready, Bool.and_self, if_pos rfl,
    startReady_full hfull]
  exact ⟨rfl, List.nil_append rest⟩

theorem schedule_busy (runnerOf : String → String) (hr : s.running ≠ []) :
    s.schedule (some 1) runnerOf = s := by
  have hfull : State.hasRoom { s with pending := [] } (some 1) = false := by
    simpa [hasRoom, Nat.one_le_iff_ne_zero] using hr
  rw [schedule, startReady_full hfull]
  rfl

end State

/-- The nodes started so far and then those that wait are the order of the plan. -/
def State.InSequence (s : State) (plan : Plan) : Prop :=
  s.started.map Task.id ++ s.pending.map (·.id) = plan.order

/-- Once nothing runs, what the next waiting node depends on has been started before and has
succeeded. -/
theorem State.InSequence.isReady (h : s.InSequence plan) (hp : plan.Ordered)
    (hc : Consistent e plan s) (ha : Accounted s) (hh : s.halt = none) (hr : s.running = [])
    {n : PlanNode} {rest : List PlanNode} (hpending : s.pending = n :: rest) :
    s.isReady n = true := by
  refine State.isReady_iff.mpr fun d hd => ?_
  have hstarted : d ∈ s.started.map Task.id := by
    have hbefore := hp.before n (hc.planned (hpending ▸ List.mem_cons_self)) d hd
    by_contra hnot
    rw [← h, hpending, List.map_cons, List.idxOf_append_of_notMem hnot,
      List.idxOf_append] at hbefore
    split at hbefore
    · rename_i hmem
      have hlt := List.idxOf_lt_length_iff.mpr hmem
      omega
    · rw [List.idxOf_cons_self] at hbefore
      omega
  obtain ⟨t, ht, rfl⟩ := List.mem_map.mp hstarted
  refine (ha.alive hh t ht).resolve_left fun hrun => ?_
  simp [hr] at hrun

theorem State.InSequence.pass (h : s.InSequence plan) (hp : plan.Ordered)
    (hlimit : e.settings.limit = some 1) (hc : Consistent e plan s) (ha : Accounted s)
    (hh : s.halt = none) : (e.pass s).InSequence plan := by
  rw [Terms.pass, hlimit]
  by_cases hr : s.running = []
  · cases hpending : s.pending with
    | nil =>
      rw [State.InSequence, hpending] at h
      rw [State.schedule, hpending]
      exact h
    | cons n rest =>
      obtain ⟨hstarted, hrest⟩ := State.schedule_idle e.runnerOf hr hpending
        (h.isReady hp hc ha hh hr hpending)
      rw [State.InSequence, hpending] at h
      rw [State.InSequence, hstarted, hrest, List.map_append, List.append_assoc]
      exact h
  · rw [State.schedule_busy e.runnerOf hr]
    exact h

theorem inSequence_of_reaches (hp : plan.Ordered) (hlimit : e.settings.limit = some 1)
    {c : Snapshot} (hc : e.Reaches plan c) : c.state.InSequence plan := by
  refine hc.induct (p := fun c => c.state.InSequence plan) hp.accepted.inOrder_ids
    fun a b hreach ha hstep => ?_
  have hinv := Invariant.of_reaches hp.accepted hreach
  rcases hstep.schedules with ⟨hstarted, hpending, -⟩ | ⟨hphase, hstarted, hpending, -⟩
  · rw [State.InSequence, hstarted, hpending]
    exact ha
  · rw [State.InSequence, hstarted, hpending]
    exact ha.pass hp hlimit hinv.consistent hinv.accounted
      (hinv.going (by simp [Snapshot.isLeft, hphase]))

/-- Up to this point a run has started the nodes of the plan in its order. -/
structure StartsInOrder (plan : Plan) (c : Snapshot) : Prop where
  started : c.state.started.map Task.id <+: plan.order
  complete : c.phase = .ended → c.state.halt = none → c.state.started.map Task.id = plan.order

theorem startsInOrder_of_reaches (hp : plan.Ordered) (hlimit : e.settings.limit = some 1)
    {c : Snapshot} (hc : e.Reaches plan c) : StartsInOrder plan c where
  started := ⟨_, inSequence_of_reaches hp hlimit hc⟩
  complete hend hhalt := by
    have hsequence := inSequence_of_reaches hp hlimit hc
    have hpending := ((Invariant.of_reaches hp.accepted hc).complete hend hhalt).1
    rwa [State.InSequence, hpending, List.map_nil, List.append_nil] at hsequence

/-! ### Runs -/

/-- Whatever ends when and whenever a run is halted, it makes use of the bound on concurrency. Where
one task may run at a time and runners answer under the id of the node that they are given, it
starts nodes in the order of the plan; so does the engine on a host with such runners. -/
theorem usesBound_and_startsInOrder (hp : planFault? plan = none)
    (hbefore : ∀ n ∈ plan.nodes, ∀ d ∈ n.dependsOn, plan.order.idxOf d < plan.order.idxOf n.id) :
    (∀ c, e.MayReach plan c → UsesBound e c) ∧
    (e.settings.limit = some 1 →
      (∀ c, e.Reaches plan c → StartsInOrder plan c) ∧
      ∀ (σ : Type) (host : Host σ), host.Serves e → ∀ runId w w' s,
        run host e.settings plan runId w = (.ok s, w') → StartsInOrder plan ⟨.ended, s⟩) := by
  have haccepted := Plan.planFault?_eq_none_iff.mp hp
  have hordered : plan.Ordered := ⟨haccepted.order_nodup, haccepted.perm, hbefore⟩
  refine ⟨fun c hc => usesBound_of_mayReach hc, fun hlimit => ?_⟩
  have hreached : ∀ c, e.Reaches plan c → StartsInOrder plan c := fun c hc =>
    startsInOrder_of_reaches hordered hlimit hc
  exact ⟨hreached, fun σ host hhost runId w w' s hrun => hreached _ (reaches_run hhost hrun).2⟩

theorem chainPlan_usesBound : planFault? chainPlan = none ∧
    (∀ n ∈ chainPlan.nodes, ∀ d ∈ n.dependsOn,
      chainPlan.order.idxOf d < chainPlan.order.idxOf n.id) ∧
    UsesBound (echo {}) ⟨.waiting, chainLater⟩ ∧
    ∃ s, run (relay id) { parallel := false } chainPlan "run" () = (.ok s, ()) ∧
      s.started.map Task.id = ["a", "b"] ∧ StartsInOrder chainPlan ⟨.ended, s⟩ := by
  have hbefore := chainPlan_ordered.before
  have hserves : (relay id).Serves (echo { parallel := false }) :=
    ⟨rfl, fun _ _ _ => rfl, fun _ _ _ => Or.inl rfl⟩
  have hlater : (echo {}).MayReach chainPlan ⟨.waiting, chainLater⟩ :=
    Relation.ReflTransGen.mono (fun _ _ h => Turn.step h) _ _ reaches_chainLater
  exact ⟨rfl, hbefore, (usesBound_and_startsInOrder rfl hbefore).1 _ hlater,
    (finalState (relay id) { parallel := false } chainPlan "run" ()).1, rfl, by decide,
    ((usesBound_and_startsInOrder rfl hbefore).2 rfl).2 Unit (relay id) hserves "run" () () _ rfl⟩

/-- A node, one that depends on it, and one apart from them. -/
def forkPlan : Plan :=
  { (default : Plan) with
    nodes := [{ (default : PlanNode) with id := "A" },
      { (default : PlanNode) with id := "B", dependsOn := ["A"] },
      { (default : PlanNode) with id := "C" }]
    order := ["A", "B", "C"] }

/-- Runners that report under another id make the run pass over the next node, even where one task
may run at a time. -/
theorem relay_passesOver : planFault? forkPlan = none ∧
    (∀ n ∈ forkPlan.nodes, ∀ d ∈ n.dependsOn,
      forkPlan.order.idxOf d < forkPlan.order.idxOf n.id) ∧
    ∃ s, run (relay fun _ => "Z") { parallel := false } forkPlan "run" () = (.ok s, ()) ∧
      s.started.map Task.id = ["A", "C"] ∧ ¬ s.started.map Task.id <+: forkPlan.order := by
  have hstarted : (finalState (relay fun _ => "Z") { parallel := false } forkPlan "run"
      ()).1.started.map Task.id = ["A", "C"] := by decide
  have hnot : ¬ ["A", "C"] <+: forkPlan.order := by decide
  exact ⟨rfl, by decide,
    (finalState (relay fun _ => "Z") { parallel := false } forkPlan "run" ()).1, rfl, hstarted,
    hstarted ▸ hnot⟩

end Flowline.Engine
