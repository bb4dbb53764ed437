import Flowline.Engine.Run
import Flowline.Proofs.Engine.Outcome

/-!
# Three records of a run

A run leaves its events, the results that a store keeps, and its own result. All three grow by the
same steps, so they tell the same. This takes runners that answer under the id of the node that they
were given: a second result under one id is told and stored, but does not join the result of the
run.
-/
namespace Flowline

namespace Event

/-- The node that an event tells the start of. -/
def started? : Event → Option String
  | nodeStarted node _ _ => some node
  | _ => none

/-- The node that an event tells the end of, and whether it succeeded. -/
def ended? : Event → Option (String × Bool)
  | nodeSucceeded node => some (node, true)
  | nodeFailed node _ => some (node, false)
  | _ => none

/-- Not an event of the run as a whole. -/
def isOfNode : Event → Bool
  | runStarted _ | runFinished _ => false
  | _ => true

/-- The event that tells a result. -/
def ofResult (r : NodeResult) : Event :=
  if r.success then .nodeSucceeded r.node else .nodeFailed r.node r.errorMessage

@[simp] theorem started?_ofResult (r : NodeResult) : (ofResult r).started? = none := by
  unfold ofResult
  split <;> rfl

@[simp] theorem ended?_ofResult (r : NodeResult) :
    (ofResult r).ended? = some (r.node, r.success) := by
  unfold ofResult
  cases r.success <;> rfl

@[simp] theorem isOfNode_ofResult (r : NodeResult) : (ofResult r).isOfNode = true := by
  unfold ofResult
  split <;> rfl

theorem started?_of_ended? {ev : Event} {p : String × Bool} (h : ev.ended? = some p) :
    ev.started? = none := by
  cases ev <;> first | rfl | cases h

end Event

namespace Engine

variable {e : Terms} {plan : Plan} {s : State}

/-! ### What a step tells -/

/-- What a step adds to the events: nothing, the starts of a scheduling pass, or the end of a
running task with its result. -/
inductive Tells (e : Terms) (a b : State) : Prop where
  | nothing (events : b.events = a.events) (started : b.started = a.started)
      (recorded : b.recorded = a.recorded)
  | starts (nodes : List PlanNode)
      (events : b.events =
        a.events ++ nodes.map fun n => .nodeStarted n.id n.type (e.runnerOf n.type))
      (started : b.started.map Task.id = a.started.map Task.id ++ nodes.map (·.id))
      (recorded : b.recorded = a.recorded)
  | ends (t : Task) (r : NodeResult) (ht : t ∈ a.running) (hr : e.answers t r)
      (events : b.events = a.events ++ [.ofResult r]) (started : b.started = a.started)
      (recorded : b.recorded = a.recorded ++ [r])

theorem Terms.pass_tells (e : Terms) (s : State) : Tells e s (e.pass s) := by
  obtain ⟨launched, kept, -, -, -, heq, -⟩ := e.pass_spec s
  rw [heq]
  exact .starts launched rfl (by simp [Function.comp_def]) rfl

theorem Step.tells {a b : Snapshot} (h : Step e a b) : Tells e a.state b.state := by
  cases h with
  | cancelPass s | cancel s | expire s | crash s | lose s | close s => exact .nothing rfl rfl rfl
  | await s hr => exact e.pass_tells s
  | settle s hr =>
    unfold State.settle
    split
    · exact e.pass_tells s
    · obtain ⟨he, hs, hrec⟩ | ⟨nodes, he, hs, hrec⟩ | ⟨t, r, ht, hr, he, hs, hrec⟩ := e.pass_tells s
      · exact .nothing he hs hrec
      · exact .starts nodes he hs hrec
      · exact .ends t r ht hr he hs hrec
  | finish s t r ht hr =>
    rw [State.finish_eq]
    split <;> exact .ends t r ht hr rfl rfl rfl
  | drain s t r ht hr =>
    rw [State.drain_eq]
    split
    · exact .ends t r ht hr rfl rfl rfl
    · exact .nothing rfl rfl rfl

/-! ### What a run has told -/

/-- Wherever the events break off, the nodes that have ended were started before. -/
def EndsAfterStarts (events : List Event) : Prop :=
  ∀ before, before <+: events →
    ∀ p ∈ before.filterMap Event.ended?, p.1 ∈ before.filterMap Event.started?

theorem EndsAfterStarts.append {events new : List Event} (h : EndsAfterStarts events)
    (hnew : ∀ p ∈ new.filterMap Event.ended?, p.1 ∈ events.filterMap Event.started?) :
    EndsAfterStarts (events ++ new) := by
  intro before hbefore p hp
  rcases List.prefix_or_prefix_of_prefix hbefore (List.prefix_append events new) with hold | hlater
  · exact h before hold p hp
  · obtain ⟨some, rfl⟩ := hlater
    have hsome : some <+: new := (List.prefix_append_right_inj events).mp hbefore
    rw [List.filterMap_append, List.mem_append] at hp ⊢
    refine Or.inl (hp.elim (h events (List.prefix_refl _) p) fun hp => hnew p ?_)
    exact (hsome.filterMap Event.ended?).subset hp

theorem EndsAfterStarts.before {before after : List Event} {ev : Event}
    (h : EndsAfterStarts (before ++ ev :: after)) {p : String × Bool} (hev : ev.ended? = some p) :
    p.1 ∈ before.filterMap Event.started? := by
  have hprefix : before ++ [ev] <+: before ++ ev :: after := by simp
  have hmem := h _ hprefix p (by simp [hev])
  simpa [Event.started?_of_ended? hev] using hmem

/-- The events of a run tell its start, the tasks that it started, and the results that it took
in. -/
structure Told (plan : Plan) (s : State) : Prop where
  opening : ∃ rest, s.events = .runStarted plan.id :: rest ∧ ∀ ev ∈ rest, ev.isOfNode = true
  started : s.events.filterMap Event.started? = s.started.map Task.id
  ended : s.events.filterMap Event.ended? = s.recorded.map fun r => (r.node, r.success)
  ordered : EndsAfterStarts s.events

namespace Told

theorem initial (plan : Plan) : Told plan (.initial plan) where
  opening := ⟨[], rfl, by simp⟩
  started := rfl
  ended := rfl
  ordered before hbefore p hp := by
    have hnone : ∀ ev ∈ before, ev.ended? = none := by
      intro ev hev
      rw [List.mem_singleton.mp (hbefore.subset hev)]
      rfl
    obtain ⟨ev, hev, hsome⟩ := List.mem_filterMap.mp hp
    rw [hnone ev hev] at hsome
    cases hsome

theorem step {a b : State} (h : Told plan a) (hc : Consistent e plan a) (hab : Tells e a b) :
    Told plan b := by
  obtain ⟨rest, hopening, hrest⟩ := h.opening
  cases hab with
  | nothing events started recorded =>
    exact ⟨⟨rest, events.trans hopening, hrest⟩, by rw [events, started, h.started],
      by rw [events, recorded, h.ended], events ▸ h.ordered⟩
  | starts nodes events started recorded =>
    have hstarted : (nodes.map fun n =>
        Event.nodeStarted n.id n.type (e.runnerOf n.type)).filterMap Event.started? =
          nodes.map (·.id) := by
      rw [List.filterMap_map]
      exact congrFun (List.filterMap_eq_map (f := fun n : PlanNode => n.id)) nodes
    have hended : (nodes.map fun n =>
        Event.nodeStarted n.id n.type (e.runnerOf n.type)).filterMap Event.ended? = [] := by
      simp [List.filterMap_map, Event.ended?]
    exact {
      opening := by
        refine ⟨_, by rw [events, hopening, List.cons_append], fun ev hev => ?_⟩
        rcases List.mem_append.mp hev with hev | hev
        · exact hrest ev hev
        · obtain ⟨n, -, rfl⟩ := List.mem_map.mp hev
          rfl
      started := by rw [events, List.filterMap_append, hstarted, h.started, started]
      ended := by rw [events, List.filterMap_append, hended, List.append_nil, h.ended, recorded]
      ordered := events ▸ h.ordered.append (by simp [hended]) }
  | ends t r ht hr events started recorded =>
    have hbegun : r.node ∈ a.events.filterMap Event.started? := by
      rw [h.started, e.answer_node t r hr]
      exact List.mem_map_of_mem (hc.running.subset ht)
    exact {
      opening := by
        refine ⟨_, by rw [events, hopening, List.cons_append], fun ev hev => ?_⟩
        rcases List.mem_append.mp hev with hev | hev
        · exact hrest ev hev
        · rw [List.mem_singleton.mp hev, Event.isOfNode_ofResult]
      started := by simp [events, List.filterMap_append, h.started, started]
      ended := by simp [events, List.filterMap_append, h.ended, recorded]
      ordered := events ▸ h.ordered.append (by simpa using hbegun) }

theorem of_reaches (hp : plan.Accepted) {c : Snapshot} (h : e.Reaches plan c) :
    Told plan c.state :=
  h.induct (p := fun c => Told plan c.state) (initial plan) fun _ _ ha htold hs =>
    htold.step (Invariant.of_reaches hp ha).consistent hs.tells

end Told

/-- These are the events of a run with this result. -/
structure Narrates (events : List Event) (r : RunResult) : Prop where
  framed : ∃ inner, events = .runStarted r.pipelineId :: inner ++ [.runFinished r.status] ∧
    ∀ ev ∈ inner, ev.isOfNode = true
  startedOnce : (events.filterMap Event.started?).Nodup
  endedOnce : ((events.filterMap Event.ended?).map (·.1)).Nodup
  later : ∀ before ev after, events = before ++ ev :: after →
    ∀ p, ev.ended? = some p → p.1 ∈ before.filterMap Event.started?
  succeeded : ∀ id, .nodeSucceeded id ∈ events ↔ ∃ q, r.result? id = some q ∧ q.success = true
  failed : ∀ id, (∃ error, .nodeFailed id error ∈ events) ↔
    ∃ q, r.result? id = some q ∧ q.success = false

theorem Consistent.recorded_nodup (h : Consistent e plan s) : (s.recorded.map (·.node)).Nodup := by
  have hkeys := h.keys
  rw [h.recorded, List.map_map] at hkeys
  exact hkeys

theorem Consistent.result?_iff (h : Consistent e plan s) {id : String} {q : NodeResult} :
    s.result? id = some q ↔ q ∈ s.recorded ∧ q.node = id := by
  constructor
  · intro hq
    have hmem := mem_of_lookup hq
    rw [h.recorded] at hmem
    obtain ⟨r, hr, heq⟩ := List.mem_map.mp hmem
    obtain ⟨rfl, rfl⟩ := Prod.mk.inj heq
    exact ⟨hr, rfl⟩
  · rintro ⟨hq, rfl⟩
    have hmem : (q.node, q) ∈ s.results := by
      rw [h.recorded]
      exact List.mem_map_of_mem hq
    exact h.result?_of_mem hmem

/-- The ends that are told are those of the results. -/
theorem Told.mem_ended (h : Told plan s) (hc : Consistent e plan s) (id : String) (success : Bool) :
    (id, success) ∈ s.events.filterMap Event.ended? ↔
      ∃ q, s.result? id = some q ∧ q.success = success := by
  rw [h.ended, List.mem_map]
  refine exists_congr fun q => ?_
  rw [hc.result?_iff, Prod.mk.injEq, and_assoc]

theorem Told.narrates (h : Told plan s) (hc : Consistent e plan s) (hp : plan.Accepted)
    (runId : String) : Narrates s.allEvents (s.outcome runId plan.id) := by
  obtain ⟨rest, hopening, hrest⟩ := h.opening
  have hstarted : s.allEvents.filterMap Event.started? = s.started.map Task.id := by
    simp [State.allEvents, List.filterMap_append, h.started, Event.started?]
  have hended : s.allEvents.filterMap Event.ended? = s.events.filterMap Event.ended? := by
    simp [State.allEvents, List.filterMap_append, Event.ended?]
  have hordered : EndsAfterStarts s.allEvents := h.ordered.append (by simp [Event.ended?])
  have htold : ∀ id success, (id, success) ∈ s.allEvents.filterMap Event.ended? ↔
      ∃ q, (s.outcome runId plan.id).result? id = some q ∧ q.success = success := by
    intro id success
    rw [hended, h.mem_ended hc, hc.result?_outcome]
  exact {
    framed := ⟨rest, by rw [State.allEvents, hopening]; rfl, hrest⟩
    startedOnce := by
      rw [hstarted]
      exact hc.started_nodup hp
    endedOnce := by
      rw [hended, h.ended, List.map_map]
      exact hc.recorded_nodup
    later := fun before ev after heq p hp => (heq ▸ hordered).before hp
    succeeded := by
      intro id
      rw [← htold, List.mem_filterMap]
      constructor
      · exact fun hmem => ⟨_, hmem, rfl⟩
      · rintro ⟨ev, hmem, hev⟩
        cases ev <;> simp [Event.ended?] at hev
        exact hev ▸ hmem
    failed := by
      intro id
      rw [← htold, List.mem_filterMap]
      constructor
      · exact fun ⟨error, hmem⟩ => ⟨_, hmem, rfl⟩
      · rintro ⟨ev, hmem, hev⟩
        cases ev <;> simp [Event.ended?] at hev
        exact ⟨_, hev ▸ hmem⟩ }

end Engine

/-! ### What a store keeps -/

/-- In states with `i` every call succeeds: a result joins those of its run, and the result of a run
is found again. -/
structure RunStore.Keeps {κ : Type} (calls : RunStore κ) (i : κ → Prop) : Prop where
  recordNode : ∀ k, i k → ∀ runId r, ∃ k', calls.recordNode runId r k = .ok k' ∧ i k' ∧
    ∀ rs, calls.nodeResults runId k = .ok rs → calls.nodeResults runId k' = .ok (rs ++ [r])
  recordRun : ∀ k, i k → ∀ r, ∃ k', calls.recordRun r k = .ok k' ∧ i k' ∧
    calls.loadRun r.runId k' = .ok (some r) ∧
    ∀ runId, calls.nodeResults runId k' = calls.nodeResults runId k

theorem RunStore.Keeps.keep {κ : Type} {calls : RunStore κ} {i : κ → Prop} (h : calls.Keeps i)
    {k : κ} (hk : i k) (results : List NodeResult) (r : RunResult) {rs : List NodeResult}
    (hrs : calls.nodeResults r.runId k = .ok rs) :
    i (calls.keep results r k) ∧
      calls.nodeResults r.runId (calls.keep results r k) = .ok (rs ++ results) ∧
      calls.loadRun r.runId (calls.keep results r k) = .ok (some r) := by
  induction results generalizing k rs with
  | nil =>
    obtain ⟨k', hcall, hk', hload, hsame⟩ := h.recordRun k hk r
    have hkeep : calls.keep [] r k = k' := by
      rw [RunStore.keep, List.foldl_nil, hcall]
      rfl
    rw [hkeep, List.append_nil]
    exact ⟨hk', (hsame r.runId).trans hrs, hload⟩
  | cons q results ih =>
    obtain ⟨k', hcall, hk', hjoin⟩ := h.recordNode k hk r.runId q
    have hkeep : calls.keep (q :: results) r k = calls.keep results r k' := by
      rw [RunStore.keep, List.foldl_cons, hcall]
      rfl
    rw [hkeep, List.append_cons]
    exact ih hk' (hjoin rs hrs)

theorem MemoryStore.keeps : MemoryStore.calls.Keeps fun _ => True where
  recordNode k _ runId r := by
    refine ⟨k.recordNode runId r, rfl, trivial, ?_⟩
    rintro _ ⟨⟩
    simp [MemoryStore.calls, MemoryStore.nodeResults, MemoryStore.recordNode]
  recordRun k _ r := by
    refine ⟨k.recordRun r, rfl, trivial, ?_, fun _ => rfl⟩
    simp [MemoryStore.calls, MemoryStore.loadRun, MemoryStore.recordRun]

/-- Without a folder results are kept in memory. -/
theorem ResultStore.keeps : ResultStore.calls.Keeps fun k => k.folder = none where
  recordNode k hk runId r := by
    obtain ⟨memory, hcall, -, hjoin⟩ := MemoryStore.keeps.recordNode k.memory trivial runId r
    obtain rfl := Except.ok.inj hcall
    refine ⟨{ k with memory := k.memory.recordNode runId r }, ?_, hk, fun rs hrs => ?_⟩
    · simp [ResultStore.calls, ResultStore.recordNode, hk]
    · simp only [ResultStore.calls, ResultStore.nodeResults, hk] at hrs ⊢
      exact hjoin rs hrs
  recordRun k hk r := by
    obtain ⟨memory, hcall, -, hload, hsame⟩ := MemoryStore.keeps.recordRun k.memory trivial r
    obtain rfl := Except.ok.inj hcall
    refine ⟨{ k with memory := k.memory.recordRun r }, ?_, hk, ?_, fun runId => ?_⟩
    · simp [ResultStore.calls, ResultStore.recordRun, hk]
    · simp only [ResultStore.calls, ResultStore.loadRun, hk]
      exact hload
    · simp only [ResultStore.calls, ResultStore.nodeResults, hk]
      exact hsame runId

/-! ### Runs of an executor -/

namespace Executor

open Engine

variable {κ : Type} {x y : Executor κ} {runId : String} {r : RunResult}

/-- Between `x` and `y` there was one run with this result: its events, what the store then has of
it and its result agree. -/
structure RecordsAgree (x y : Executor κ) (runId : String) (r : RunResult) : Prop where
  status : y.status = r.status
  told : ∃ events, y.emitted = x.emitted ++ events.map (runId, ·) ∧ Narrates events r
  stored : ∃ kept, y.calls.nodeResults runId y.store = .ok kept ∧ kept.Perm (r.results.map (·.2))
  loaded : y.calls.loadRun runId y.store = .ok (some r)

/-- All calls of the store succeed, and it has nothing under this id yet. -/
def IsUnused (x : Executor κ) (runId : String) : Prop :=
  ∃ i, x.calls.Keeps i ∧ i x.store ∧ x.calls.nodeResults runId x.store = .ok []

theorem conclude_agrees (hx : x.IsUnused runId) {e : Terms} {s : State}
    (hp : planFault? x.plan = none) (hs : e.Reaches x.plan ⟨.ended, s⟩) :
    RecordsAgree x (x.conclude runId s) runId (s.outcome runId x.plan.id) := by
  obtain ⟨i, hcalls, hstore, hnew⟩ := hx
  have haccepted := Plan.planFault?_eq_none_iff.mp hp
  have hc := (Invariant.of_reaches haccepted hs).consistent
  obtain ⟨-, hkept, hload⟩ := hcalls.keep hstore s.recorded (s.outcome runId x.plan.id) hnew
  have hvalues : s.recorded = s.results.map (·.2) := by
    rw [hc.recorded, List.map_map]
    exact (List.map_id _).symm
  exact {
    status := rfl
    told := ⟨s.allEvents, rfl, (Told.of_reaches haccepted hs).narrates hc haccepted runId⟩
    stored := ⟨s.recorded, hkept, hvalues ▸ ((hc.outcome_perm runId x.plan.id).map _).symm⟩
    loaded := hload }

theorem run_error_iff {σ : Type} {host : Host σ} {w w' : σ} {error : PipelineError} :
    x.run host runId w = (.error error, y, w') ↔
      startError? host.runners x.plan = some error ∧ y = x ∧ w' = w := by
  unfold run Engine.run
  cases startError? host.runners x.plan with
  | some fault => simp [eq_comm]
  | none => simp

theorem run_ok {σ : Type} {host : Host σ} {w w' : σ}
    (h : x.run host runId w = (.ok r, y, w')) :
    ∃ s, Engine.run host x.settings x.plan runId w = (.ok s, w') ∧ y = x.conclude runId s ∧
      r = s.outcome runId x.plan.id := by
  unfold run at h
  split at h
  · simp at h
  · rename_i s w₁ hrun
    obtain ⟨hr, hy, hw⟩ : s.outcome runId x.plan.id = r ∧ x.conclude runId s = y ∧ w₁ = w' := by
      simpa using h
    exact ⟨s, hw ▸ hrun, hy.symm, hr.symm⟩

/-- However a run of an accepted plan ends, its three records agree; so do those that the engine
leaves on any host that answers for the nodes it is given. A run that cannot be started leaves
everything as it was. -/
theorem records_agree (x : Executor κ) (runId : String) :
    (x.IsUnused runId → ∀ e : Terms,
      (planFault? x.plan = none → ∀ s, e.Reaches x.plan ⟨.ended, s⟩ →
        RecordsAgree x (x.conclude runId s) runId (s.outcome runId x.plan.id)) ∧
      ∀ (σ : Type) (host : Host σ), host.Serves e → x.settings = e.settings → ∀ w w' r y,
        x.run host runId w = (.ok r, y, w') → RecordsAgree x y runId r) ∧
    ∀ (σ : Type) (host : Host σ) w w' error y, x.run host runId w = (.error error, y, w') ↔
      startError? host.runners x.plan = some error ∧ y = x ∧ w' = w := by
  refine ⟨fun hx e => ⟨fun hp s hs => conclude_agrees hx hp hs, ?_⟩,
    fun σ host w w' error y => run_error_iff⟩
  intro σ host hhost hsettings w w' r y hrun
  obtain ⟨s, hengine, rfl, rfl⟩ := run_ok hrun
  rw [hsettings] at hengine
  obtain ⟨hstart, hs⟩ := reaches_run hhost hengine
  have haccepted := (Plan.startError?_eq_none_iff.mp hstart).1
  exact conclude_agrees hx (Plan.planFault?_eq_none_iff.mpr haccepted) hs

/-- Runs a plan and keeps results in memory. -/
def ofPlan (plan : Plan) : Executor MemoryStore :=
  { plan, calls := MemoryStore.calls, store := {} }

theorem ofPlan_isUnused (plan : Plan) (runId : String) : (ofPlan plan).IsUnused runId :=
  ⟨_, MemoryStore.keeps, trivial, rfl⟩

theorem RecordsAgree.narrates {plan : Plan} {y : Executor MemoryStore}
    (h : RecordsAgree (ofPlan plan) y runId r) : Narrates (y.emitted.map (·.2)) r := by
  obtain ⟨events, hemitted, hevents⟩ := h.told
  have heq : y.emitted.map (·.2) = events := by
    rw [hemitted, ofPlan, List.nil_append, List.map_map]
    exact List.map_id _
  exact heq ▸ hevents

theorem chainPlan_recordsAgree : ∃ r y,
    (ofPlan chainPlan).run (relay id) "run" () = (.ok r, y, ()) ∧ r.status = .completed ∧
      RecordsAgree (ofPlan chainPlan) y "run" r := by
  have hrun : (ofPlan chainPlan).run (relay id) "run" () = (.ok _, _, ()) := rfl
  refine ⟨_, _, hrun, by decide, ?_⟩
  exact (((records_agree (ofPlan chainPlan) "run").1 (ofPlan_isUnused _ _) (echo {})).2 Unit
    (relay id) relay_serves rfl () () _ _ hrun)

/-- Two nodes that do not depend on each other. -/
def pairPlan : Plan :=
  { (default : Plan) with
    nodes := [{ (default : PlanNode) with id := "a" }, { (default : PlanNode) with id := "b" }]
    order := ["a", "b"] }

/-- A runner that reports under another id tells the end of a node that was not started, or the end
of one node twice. -/
theorem relay_untold :
    (startError? (relay fun _ => "b").runners chainPlan = none ∧ ∃ r y,
      (ofPlan chainPlan).run (relay fun _ => "b") "run" () = (.ok r, y, ()) ∧
        y.emitted.map (·.2) = [.runStarted "", .nodeStarted "a" "" "echo", .nodeSucceeded "b",
          .runFinished .failed] ∧ ¬ RecordsAgree (ofPlan chainPlan) y "run" r) ∧
    (startError? (relay fun _ => "a").runners pairPlan = none ∧ ∃ r y,
      (ofPlan pairPlan).run (relay fun _ => "a") "run" () = (.ok r, y, ()) ∧
        y.emitted.map (·.2) = [.runStarted "", .nodeStarted "a" "" "echo",
          .nodeStarted "b" "" "echo", .nodeSucceeded "a", .nodeSucceeded "a",
          .runFinished .completed] ∧ ¬ RecordsAgree (ofPlan pairPlan) y "run" r) := by
  refine ⟨⟨rfl, _, _, rfl, by decide, fun h => ?_⟩, rfl, _, _, rfl, by decide, fun h => ?_⟩
  · have hbegun := h.narrates.later [.runStarted "", .nodeStarted "a" "" "echo"]
      (.nodeSucceeded "b") [.runFinished .failed] (by decide) ("b", true) rfl
    exact absurd hbegun (by decide)
  · exact absurd h.narrates.endedOnce (by decide)

end Executor
end Flowline
