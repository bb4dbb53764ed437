import Flowline.Proofs.Data.Sorted
import Flowline.Proofs.Engine.Invariant

/-!
# Progress and termination

Every run ends, whatever its tasks answer. A run of an ordered plan never stalls, so that only a
failed node or a halt from outside keeps it from being complete.
-/
namespace Flowline.Engine

variable {e : Terms} {plan : Plan}

/-! ### Termination -/

def Phase.rank : Phase → Nat
  | scheduling => 3
  | waiting => 2
  | draining => 1
  | ended => 0

/-- A bound on the steps still to come. -/
def Snapshot.weight (c : Snapshot) : Nat :=
  4 * (c.state.pending.length + c.state.running.length) + c.phase.rank

theorem State.length_lose {s : State} {t : Task} (ht : t ∈ s.running) :
    (s.lose t.id).running.length + 1 = s.running.length := by
  have hlen : (s.lose t.id).running.length = s.running.length - 1 :=
    List.length_eraseP_of_mem ht (beq_self_eq_true t.id)
  have hpos : 0 < s.running.length := List.length_pos_of_mem ht
  omega

theorem length_pass (e : Terms) (s : State) :
    (e.pass s).pending.length + (e.pass s).running.length =
      s.pending.length + s.running.length := by
  obtain ⟨launched, kept, hperm, -, -, heq, -⟩ := e.pass_spec s
  have hlen : launched.length + kept.length = s.pending.length := by
    rw [← hperm.length_eq, List.length_append]
  rw [heq]
  simp only [List.length_append, List.length_map]
  omega

theorem Step.weight_lt {a b : Snapshot} (h : Step e a b) : b.weight < a.weight := by
  cases h with
  | cancelPass s | cancel s | expire s | close s =>
    simp [Snapshot.weight, Phase.rank, State.haltWith]
  | settle s hr =>
    have hlen := length_pass e s
    unfold State.settle
    split <;> (simp only [Snapshot.weight, Phase.rank, State.haltWith]; omega)
  | await s hr =>
    have hlen := length_pass e s
    simp only [Snapshot.weight, Phase.rank]
    omega
  | crash s t message ht | lose s t ht =>
    have hlen := State.length_lose ht
    simp only [Snapshot.weight, Phase.rank, State.haltWith]
    simp only [State.lose] at hlen ⊢
    omega
  | finish s t r ht hr =>
    have hlen := State.length_lose ht
    rw [State.finish_eq]
    cases r.success <;>
      (simp only [Snapshot.weight, Phase.rank, State.haltWith, State.record, if_true, if_false,
        Bool.false_eq_true]; simp only [State.lose] at hlen ⊢; omega)
  | drain s t r ht hr =>
    have hlen := State.length_lose ht
    rw [State.drain_eq]
    cases r.success <;>
      (simp only [Snapshot.weight, Phase.rank, State.record, if_true, if_false,
        Bool.false_eq_true]; simp only [State.lose] at hlen ⊢; omega)

/-- No run goes on for ever. -/
theorem wellFounded_step (e : Terms) : WellFounded fun b a => Step e a b :=
  Subrelation.wf (fun h => h.weight_lt) (measure Snapshot.weight).wf

/-! ### No stall -/

/-- The bound on concurrency always leaves room for one task. -/
theorem State.hasRoom_of_idle (settings : EngineSettings) {s : State} (hr : s.running = []) :
    s.hasRoom settings.limit = true := by
  unfold State.hasRoom EngineSettings.limit
  split
  · simp [hr]
  · split
    · rfl
    · simp [hr]
      omega

/-- Nothing waits once nothing runs and nothing more can be started: the first waiting node would
have only dependencies that have succeeded. -/
theorem pending_eq_nil (hp : plan.Ordered) {s : State} (hc : Consistent e plan s) (ha : Accounted s)
    (hh : s.halt = none) (hr : s.running = []) (hstuck : ∀ n ∈ s.pending, s.isReady n = false) :
    s.pending = [] := by
  have hnone : ∀ k, ∀ n ∈ s.pending, plan.order.idxOf n.id ≠ k := by
    intro k
    induction k using Nat.strongRecOn with
    | ind k ih =>
      intro n hn hk
      have hready : s.isReady n = true := by
        refine State.isReady_iff.mpr fun d hd => ?_
        have hbefore := hp.before n (hc.planned hn) d hd
        obtain ⟨m, hm, rfl⟩ := List.mem_map.mp (hp.accepted.known n (hc.planned hn) d hd)
        rcases hc.mem_pending_or_started hp.accepted hm with hwait | ⟨t, ht, hid⟩
        · exact absurd rfl (ih _ (hk ▸ hbefore) m hwait)
        · rcases ha.alive hh t ht with hrun | hres
          · simp [hr] at hrun
          · exact hid ▸ hres
      rw [hstuck n hn] at hready
      cases hready
  exact List.eq_nil_iff_forall_not_mem.mpr fun n hn => hnone _ n hn rfl

/-- A pass after which nothing runs has nothing left to start. -/
theorem pass_complete (hp : plan.Ordered) {s : State} (hc : Consistent e plan s) (ha : Accounted s)
    (hh : s.halt = none) (hr : (e.pass s).running = []) : (e.pass s).pending = [] := by
  refine pending_eq_nil hp (hc.pass hp.accepted) ha.pass ((pass_halt e s).trans hh) hr ?_
  obtain ⟨launched, kept, -, -, -, heq, hroom⟩ := e.pass_spec s
  have hstuck := hroom (State.hasRoom_of_idle e.settings hr)
  rw [heq]
  exact hstuck

/-- Only the end of a pass stalls a run. -/
theorem Step.stalled {a b : Snapshot} (h : Step e a b) {ids : List String}
    (hb : b.state.halt = some (.stalled ids)) : a.state.halt = some (.stalled ids) ∨
      a.phase = .scheduling ∧ (e.pass a.state).running = [] ∧ (e.pass a.state).pending ≠ [] := by
  cases h with
  | cancelPass s | cancel s | expire s | crash s => simp [State.haltWith] at hb
  | lose s | close s => exact Or.inl hb
  | settle s hr =>
    by_cases hempty : (e.pass s).pending.isEmpty = true
    · rw [State.settle, if_pos hempty, pass_halt] at hb
      exact Or.inl hb
    · exact Or.inr ⟨rfl, hr, fun hnil => hempty (by rw [hnil]; rfl)⟩
  | await s hr => exact Or.inl ((pass_halt e s).symm.trans hb)
  | finish s t r ht hr =>
    rw [State.finish_eq] at hb
    split at hb
    · exact Or.inl hb
    · simp [State.haltWith] at hb
  | drain s t r ht hr =>
    rw [State.drain_eq] at hb
    split at hb <;> exact Or.inl hb

theorem never_stalled (hp : plan.Ordered) {c : Snapshot} (hc : e.Reaches plan c)
    (ids : List String) : c.state.halt ≠ some (.stalled ids) := by
  refine hc.induct (p := fun c => c.state.halt ≠ some (.stalled ids))
    (by simp [Snapshot.initial, State.initial]) fun a b ha hnot hstep hb => ?_
  have hinv := Invariant.of_reaches hp.accepted ha
  rcases hstep.stalled hb with hold | ⟨hphase, hrunning, hpending⟩
  · exact hnot hold
  · have hgoing := hinv.going (by simp [Snapshot.isLeft, hphase])
    exact hpending (pass_complete hp hinv.consistent hinv.accounted hgoing hrunning)

/-! ### Progress -/

theorem running_of_waiting {c : Snapshot} (hc : e.Reaches plan c) (hw : c.phase = .waiting) :
    c.state.running ≠ [] := by
  rcases Relation.ReflTransGen.cases_tail hc with rfl | ⟨b, -, hstep⟩
  · cases hw
  · cases hstep with
    | await s hr => exact hr
    | finish s t r ht hr =>
      simp only at hw
      split at hw <;> cases hw
    | _ => cases hw

/-- A run whose tasks answer comes to its end without being halted from outside. -/
theorem exists_step (he : ∀ t, ∃ r, e.answers t r) {c : Snapshot} (hc : e.Reaches plan c)
    (hend : c.phase ≠ .ended) (hu : c.state.isUndisturbed = true) :
    ∃ c', Step e c c' ∧ c'.state.isUndisturbed = true := by
  obtain ⟨phase, s⟩ := c
  cases phase with
  | scheduling =>
    have hpass : (e.pass s).isUndisturbed = true := by
      rw [State.isUndisturbed, pass_halt]
      exact hu
    by_cases hr : (e.pass s).running = []
    · refine ⟨_, .settle s hr, ?_⟩
      unfold State.settle
      split
      · exact hpass
      · rfl
    · exact ⟨_, .await s hr, hpass⟩
  | waiting =>
    obtain ⟨t, ht⟩ := List.exists_mem_of_ne_nil _ (running_of_waiting hc rfl)
    obtain ⟨r, hr⟩ := he t
    refine ⟨_, .finish s t r ht hr, ?_⟩
    rw [State.finish_eq]
    split
    · exact hu
    · rfl
  | draining => exact ⟨_, .close s, hu⟩
  | ended => exact absurd rfl hend

/-- Every run of a plan ends, and one that is not disturbed comes to an end of its own. -/
structure Terms.Terminates (e : Terms) (plan : Plan) : Prop where
  wellFounded : WellFounded fun b a => Step e a b
  reachesEnd : ∀ c, e.Reaches plan c → c.state.isUndisturbed = true →
    ∃ s, Steps e c ⟨.ended, s⟩ ∧ s.isUndisturbed = true

theorem terminates (he : ∀ t, ∃ r, e.answers t r) (plan : Plan) : e.Terminates plan where
  wellFounded := wellFounded_step e
  reachesEnd := by
    intro c
    induction c using (wellFounded_step e).induction with
    | _ c ih =>
      intro hc hu
      by_cases hend : c.phase = .ended
      · obtain ⟨phase, s⟩ := c
        obtain rfl : phase = .ended := hend
        exact ⟨s, .refl, hu⟩
      · obtain ⟨b, hstep, hb⟩ := exists_step he hc hend hu
        obtain ⟨s, hsteps, hs⟩ := ih b hstep (hc.tail hstep) hb
        exact ⟨s, .head hstep hsteps, hs⟩

/-! ### The end of a run -/

/-- A run of the plan that is not disturbed ends in this state. -/
structure Terms.EndsIn (e : Terms) (plan : Plan) (s : State) : Prop where
  reaches : e.Reaches plan ⟨.ended, s⟩
  undisturbed : s.isUndisturbed = true

/-- Every node has a result, and it is a success. -/
def State.allSucceeded (s : State) (plan : Plan) : Prop :=
  ∀ n ∈ plan.nodes, ∃ r, s.result? n.id = some r ∧ r.success = true

theorem Invariant.allSucceeded (hp : plan.Accepted) {c : Snapshot} (h : Invariant e plan c)
    (hend : c.phase = .ended) (hh : c.state.halt = none) : c.state.allSucceeded plan := by
  obtain ⟨hpending, hrunning⟩ := h.complete hend hh
  intro n hn
  rcases h.consistent.mem_pending_or_started hp hn with hwait | ⟨t, ht, hid⟩
  · simp [hpending] at hwait
  · rcases h.accounted.alive hh t ht with hrun | hres
    · simp [hrunning] at hrun
    · exact hid ▸ hres

/-- A run that is not disturbed ends with all nodes or by the failure of one. -/
theorem Terms.EndsIn.cases (hp : plan.Ordered) {s : State} (h : e.EndsIn plan s) :
    s.halt = none ∧ s.allSucceeded plan ∨ ∃ id r, s.result? id = some r ∧ r.success = false ∧
      s.halt = some (.nodeFailed id r.errorMessage) := by
  have hinv := Invariant.of_reaches hp.accepted h.reaches
  cases hh : s.halt with
  | none => exact Or.inl ⟨rfl, hinv.allSucceeded hp.accepted rfl hh⟩
  | some halt =>
    cases halt with
    | nodeFailed id message =>
      obtain ⟨r, hr, hs, rfl⟩ := hinv.accounted.named id message hh
      exact Or.inr ⟨id, r, hr, hs, rfl⟩
    | stalled ids => exact absurd hh (never_stalled hp h.reaches ids)
    | cancelled | deadline _ | crashed _ =>
      have hu := h.undisturbed
      simp [State.isUndisturbed, hh, Halt.isInterruption] at hu

/-- The recorded results are one for each node. -/
theorem Consistent.results_perm {s : State} (hp : plan.Accepted) (h : Consistent e plan s)
    (hall : s.allSucceeded plan) : (s.results.map (·.1)).Perm plan.ids := by
  refine (List.perm_ext_iff_of_nodup h.keys hp.nodup).mpr fun id => ⟨fun hid => ?_, fun hid => ?_⟩
  · obtain ⟨r, hr⟩ : ∃ r, s.result? id = some r := by
      refine Option.ne_none_iff_exists'.mp fun hnone => ?_
      obtain ⟨p, hmem, rfl⟩ := List.mem_map.mp hid
      simpa using List.lookup_eq_none_iff.mp hnone p hmem
    exact h.mem_ids hr
  · obtain ⟨n, hn, rfl⟩ := List.mem_map.mp hid
    obtain ⟨r, hr, -⟩ := hall n hn
    obtain ⟨before, after, hsplit, -⟩ := List.lookup_eq_some_iff.mp hr
    rw [hsplit]
    simp

/-- Runs of a plan get through it. -/
structure RunsThrough (plan : Plan) : Prop where
  neverStalls : ∀ e : Terms, ∀ c, e.Reaches plan c → ∀ ids, c.state.halt ≠ some (.stalled ids)
  terminates : ∀ e : Terms, (∀ t, ∃ r, e.answers t r) → e.Terminates plan
  /-- A run in which no node fails has one success for each node. -/
  completes : ∀ e : Terms, ∀ s, e.EndsIn plan s →
    (∀ id r, s.result? id = some r → r.success = true) →
    s.status = .completed ∧ (s.results.map (·.1)).Perm plan.ids ∧ s.allSucceeded plan

theorem runsThrough (hp : plan.Ordered) : RunsThrough plan where
  neverStalls e c hc := never_stalled hp hc
  terminates e he := Flowline.Engine.terminates he plan
  completes e s h hok := by
    rcases h.cases hp with ⟨hhalt, hall⟩ | ⟨id, r, hr, hfail, -⟩
    · have hc := (Invariant.of_reaches hp.accepted h.reaches).consistent
      exact ⟨by rw [State.status, hhalt]; rfl, hc.results_perm hp.accepted hall, hall⟩
    · rw [hok id r hr] at hfail
      cases hfail

/-- The results that a run is left with are the recorded ones. -/
theorem Consistent.result?_outcome {s : State} (h : Consistent e plan s)
    (runId pipelineId id : String) :
    (s.outcome runId pipelineId).result? id = s.result? id :=
  (lookup_sortedByKey id s.results).trans (lookup_reverse id h.keys)

end Flowline.Engine
