import Flowline.Proofs.Engine.State
import Flowline.Proofs.Plan.Order
import Mathlib.Data.List.Perm.Basic

/-!
# What holds at every point of a run

`Consistent` ties started tasks, waiting nodes and results together; `Accounted` says what the halt
of a run has to do with its results. Both are kept by every step of a run of an accepted plan.
-/
namespace Flowline.Engine

variable {e : Terms} {plan : Plan}

/-! ### Steps of the state -/

namespace State

theorem finish_eq (s : State) (id : String) (r : NodeResult) :
    s.finish id r = if r.success then (s.lose id).record r
      else ((s.lose id).record r).haltWith (.nodeFailed id r.errorMessage) := rfl

theorem drain_eq (s : State) (id : String) (r : NodeResult) :
    s.drain id r = if r.success then (s.lose id).record r else s.lose id := rfl

@[simp] theorem result?_lose (s : State) (id key : String) :
    (s.lose id).result? key = s.result? key := rfl

@[simp] theorem result?_haltWith (s : State) (h : Halt) (key : String) :
    (s.haltWith h).result? key = s.result? key := rfl

theorem mem_eraseP_id {tasks : List Task} (hnd : (tasks.map Task.id).Nodup) {t : Task}
    {id : String} :
    t ∈ tasks.eraseP (·.invocation.node == id) ↔ t ∈ tasks ∧ t.id ≠ id := by
  induction tasks with
  | nil => simp
  | cons a tasks ih =>
    simp only [List.map_cons, List.nodup_cons] at hnd
    by_cases ha : a.id = id
    · have hrest : ∀ b ∈ tasks, b.id ≠ id := fun b hb hid =>
        hnd.1 (List.mem_map.mpr ⟨b, hb, hid.trans ha.symm⟩)
      rw [List.eraseP_cons_of_pos (by simpa using ha)]
      constructor
      · exact fun h => ⟨List.mem_cons_of_mem _ h, hrest t h⟩
      · rintro ⟨h, hid⟩
        exact (List.mem_cons.mp h).resolve_left fun hta => hid (hta ▸ ha)
    · rw [List.eraseP_cons_of_neg (by simpa using ha), List.mem_cons, List.mem_cons, ih hnd.2]
      constructor
      · rintro (rfl | ⟨h, hid⟩)
        · exact ⟨Or.inl rfl, ha⟩
        · exact ⟨Or.inr h, hid⟩
      · rintro ⟨rfl | h, hid⟩
        · exact Or.inl rfl
        · exact Or.inr ⟨h, hid⟩

end State

/-- One scheduling pass: it starts ready nodes only, and if it leaves room then no node that still
waits is ready. -/
theorem Terms.pass_spec (e : Terms) (s : State) :
    ∃ launched kept : List PlanNode, (launched ++ kept).Perm s.pending ∧ kept.Sublist s.pending ∧
      (∀ n ∈ launched, s.isReady n = true) ∧
      e.pass s =
        { s with
          pending := kept
          running := s.running ++ launched.map (s.taskOf e.runnerOf)
          started := s.started ++ launched.map (s.taskOf e.runnerOf)
          events :=
            s.events ++ launched.map fun n => .nodeStarted n.id n.type (e.runnerOf n.type) } ∧
      ((e.pass s).hasRoom e.settings.limit = true → ∀ n ∈ kept, s.isReady n = false) := by
  obtain ⟨launched, kept, hperm, -, hkept, hready, heq, hroom⟩ :=
    State.startReady_spec e.settings.limit e.runnerOf { s with pending := [] } s.pending
  exact ⟨launched, kept, hperm, hkept, hready, heq, hroom⟩

/-! ### Consistency -/

structure Consistent (e : Terms) (plan : Plan) (s : State) : Prop where
  /-- What waits stands in the order of the plan. -/
  ordered : s.pending.Sublist plan.inOrder
  /-- Every node has either been started, once, or waits. -/
  split : (s.started.map Task.id ++ s.pending.map (·.id)).Perm plan.order
  running : s.running.Sublist s.started
  /-- A result answers the task that was started for its node. -/
  answered : ∀ id r, s.result? id = some r → ∃ t ∈ s.started, t.id = id ∧ e.answers t r
  unanswered : ∀ t ∈ s.running, s.result? t.id = none
  justified : ∀ t ∈ s.started, ∃ n ∈ plan.nodes, s.isReady n = true ∧ t = s.taskOf e.runnerOf n
  /-- No result was recorded twice. -/
  recorded : s.results = s.recorded.map fun r => (r.node, r)
  keys : (s.results.map (·.1)).Nodup

namespace Consistent

variable {s : State}

theorem initial (hp : plan.Accepted) : Consistent e plan (.initial plan) where
  ordered := List.Sublist.refl _
  split := List.Perm.of_eq hp.inOrder_ids
  running := List.Sublist.refl _
  answered := by simp [State.result?, State.initial]
  unanswered := by simp [State.initial]
  justified := by simp [State.initial]
  recorded := rfl
  keys := List.nodup_nil

theorem started_nodup (h : Consistent e plan s) (hp : plan.Accepted) :
    (s.started.map Task.id).Nodup :=
  (List.nodup_append.mp (h.split.nodup_iff.mpr hp.order_nodup)).1

theorem running_nodup (h : Consistent e plan s) (hp : plan.Accepted) :
    (s.running.map Task.id).Nodup :=
  (h.started_nodup hp).sublist (h.running.map _)

theorem planned (h : Consistent e plan s) {n : PlanNode} (hn : n ∈ s.pending) : n ∈ plan.nodes :=
  Plan.mem_nodes_of_mem_inOrder (h.ordered.subset hn)

theorem mem_pending_or_started (h : Consistent e plan s) (hp : plan.Accepted) {n : PlanNode}
    (hn : n ∈ plan.nodes) : n ∈ s.pending ∨ ∃ t ∈ s.started, t.id = n.id := by
  have hid : n.id ∈ s.started.map Task.id ++ s.pending.map (·.id) :=
    h.split.symm.subset (hp.perm.symm.subset (Plan.mem_ids hn))
  rcases List.mem_append.mp hid with hs | hw
  · exact Or.inr (List.mem_map.mp hs)
  · obtain ⟨m, hm, hmn⟩ := List.mem_map.mp hw
    exact Or.inl (hp.eq_of_id_eq (h.planned hm) hn hmn ▸ hm)

/-- Recorded results are those of nodes of the plan. -/
theorem mem_ids (h : Consistent e plan s) {id : String} {r : NodeResult}
    (hr : s.result? id = some r) :
    id ∈ plan.ids := by
  obtain ⟨t, ht, rfl, -⟩ := h.answered id r hr
  obtain ⟨n, hn, -, rfl⟩ := h.justified t ht
  exact Plan.mem_ids hn

theorem pass (h : Consistent e plan s) (hp : plan.Accepted) : Consistent e plan (e.pass s) := by
  obtain ⟨launched, kept, hperm, hkept, hready, heq, -⟩ := e.pass_spec s
  have hids : (launched.map (s.taskOf e.runnerOf)).map Task.id = launched.map (·.id) := by
    simp [Function.comp_def]
  have hsplit : ((s.started ++ launched.map (s.taskOf e.runnerOf)).map Task.id ++
      kept.map (·.id)).Perm plan.order := by
    rw [List.map_append, hids, List.append_assoc, ← List.map_append]
    exact ((hperm.map _).append_left _).trans h.split
  have hwaiting : ∀ n ∈ launched, n ∈ s.pending := fun n hn =>
    hperm.subset (List.mem_append_left _ hn)
  rw [heq]
  exact {
    ordered := hkept.trans h.ordered
    split := hsplit
    running := h.running.append (List.Sublist.refl _)
    answered := by
      intro id r hr
      obtain ⟨t, ht, hid, ha⟩ := h.answered id r hr
      exact ⟨t, List.mem_append_left _ ht, hid, ha⟩
    unanswered := by
      intro t ht
      rcases List.mem_append.mp ht with ht | ht
      · exact h.unanswered t ht
      · -- A result would belong to a task started before under the id of a node that was waiting.
        obtain ⟨n, hn, rfl⟩ := List.mem_map.mp ht
        refine Option.eq_none_iff_forall_ne_some.mpr fun r hr => ?_
        obtain ⟨t, ht, hid, -⟩ := h.answered _ r hr
        have hnd := h.split.nodup_iff.mpr hp.order_nodup
        exact (List.nodup_append.mp hnd).2.2 t.id (List.mem_map_of_mem ht) n.id
          (List.mem_map_of_mem (hwaiting n hn)) hid
    justified := by
      intro t ht
      rcases List.mem_append.mp ht with ht | ht
      · exact h.justified t ht
      · obtain ⟨n, hn, rfl⟩ := List.mem_map.mp ht
        exact ⟨n, h.planned (hwaiting n hn), hready n hn, rfl⟩
    recorded := h.recorded
    keys := h.keys }

theorem haltWith (h : Consistent e plan s) (halt : Halt) : Consistent e plan (s.haltWith halt) :=
  ⟨h.ordered, h.split, h.running, h.answered, h.unanswered, h.justified, h.recorded, h.keys⟩

theorem lose (h : Consistent e plan s) (id : String) : Consistent e plan (s.lose id) where
  ordered := h.ordered
  split := h.split
  running := List.eraseP_sublist.trans h.running
  answered := h.answered
  unanswered t ht := h.unanswered t (List.mem_of_mem_eraseP ht)
  justified := h.justified
  recorded := h.recorded
  keys := h.keys

/-- A running task ends, and its result is recorded. -/
theorem record (h : Consistent e plan s) (hp : plan.Accepted) {t : Task} {r : NodeResult}
    (ht : t ∈ s.running) (hr : e.answers t r) :
    Consistent e plan ((s.lose t.id).record r) := by
  have hnode : r.node = t.id := e.answer_node t r hr
  have hnone : (s.lose t.id).result? r.node = none := hnode ▸ h.unanswered t ht
  have hresults := State.record_results_of_none hnone
  have hext := State.record_extends (s.lose t.id) r
  exact {
    ordered := h.ordered
    split := h.split
    running := (h.lose _).running
    answered := by
      intro id q hq
      rw [State.result?_record, Option.or_eq_some_iff] at hq
      rcases hq with hq | ⟨-, hq⟩
      · exact h.answered id q hq
      · split at hq
        · rename_i hid
          cases hq
          exact ⟨t, h.running.subset ht, (hid.trans hnode).symm, hr⟩
        · cases hq
    unanswered := by
      intro u hu
      have hmem := (State.mem_eraseP_id (h.running_nodup hp)).mp hu
      rw [State.result?_record, hnode, if_neg hmem.2, Option.or_none]
      exact h.unanswered u hmem.1
    justified := by
      intro u hu
      obtain ⟨n, hn, hready, rfl⟩ := h.justified u hu
      refine ⟨n, hn, hext.isReady hready, ?_⟩
      rw [State.taskOf, State.taskOf, hext.invocation_eq hready]
      rfl
    recorded := by
      rw [hresults]
      exact (congrArg (· ++ [(r.node, r)]) h.recorded).trans (by simp [State.record, State.lose])
    keys := by
      rw [hresults, List.map_append, List.map_singleton, List.nodup_append]
      refine ⟨h.keys, List.nodup_singleton _, fun a ha b hb hab => ?_⟩
      obtain ⟨p, hold, rfl⟩ := List.mem_map.mp ha
      have hne : r.node ≠ p.1 := bne_iff_ne.mp (List.lookup_eq_none_iff.mp hnone p hold)
      exact hne ((List.mem_singleton.mp hb).symm.trans hab.symm) }

/-- What follows for the result of a node from what holds of the results of its dependencies holds
of all results. -/
theorem results_induction (h : Consistent e plan s) (hp : plan.Ordered)
    {p : PlanNode → NodeResult → Prop}
    (step : ∀ n ∈ plan.nodes, ∀ r, s.isReady n = true → e.answers (s.taskOf e.runnerOf n) r →
      (∀ m ∈ plan.nodes, m.id ∈ n.dependsOn → ∀ q, s.result? m.id = some q → p m q) → p n r)
    {n : PlanNode} (hn : n ∈ plan.nodes) {r : NodeResult} (hr : s.result? n.id = some r) :
    p n r := by
  generalize hk : plan.order.idxOf n.id = k
  induction k using Nat.strongRecOn generalizing n r with
  | ind k ih =>
    obtain ⟨t, ht, hid, hanswer⟩ := h.answered n.id r hr
    obtain ⟨m, hm, hready, rfl⟩ := h.justified t ht
    obtain rfl : m = n := hp.accepted.eq_of_id_eq hm hn hid
    refine step m hm r hready hanswer fun d hd hdep q hq => ?_
    exact ih _ (hk ▸ hp.before m hm d.id hdep) hd hq rfl

end Consistent

/-! ### Halts -/

structure Accounted (s : State) : Prop where
  /-- While a run goes on, every started task runs or has succeeded. -/
  alive : s.halt = none → ∀ t ∈ s.started,
    t ∈ s.running ∨ ∃ r, s.result? t.id = some r ∧ r.success = true
  /-- The run was halted by whatever failed. -/
  failed : ∀ id r, s.result? id = some r → r.success = false →
    s.halt = some (.nodeFailed id r.errorMessage)
  named : ∀ id message, s.halt = some (.nodeFailed id message) →
    ∃ r, s.result? id = some r ∧ r.success = false ∧ r.errorMessage = message

namespace Accounted

variable {s : State}

theorem initial : Accounted (.initial plan) :=
  ⟨by simp [State.initial], by simp [State.result?, State.initial], by simp [State.initial]⟩

theorem success_of_going (h : Accounted s) (hs : s.halt = none) {id : String} {r : NodeResult}
    (hr : s.result? id = some r) : r.success = true := by
  by_contra hf
  have hhalt := h.failed id r hr (Bool.eq_false_iff.mpr hf)
  rw [hs] at hhalt
  cases hhalt

theorem pass (h : Accounted s) : Accounted (e.pass s) := by
  obtain ⟨launched, kept, -, -, -, heq, -⟩ := e.pass_spec s
  rw [heq]
  refine ⟨fun hs t ht => ?_, h.failed, h.named⟩
  rcases List.mem_append.mp ht with ht | ht
  · exact (h.alive hs t ht).imp_left fun hr => List.mem_append_left _ hr
  · exact Or.inl (List.mem_append_right _ ht)

/-- A halt other than by a failed node takes place while nothing has failed. -/
theorem haltWith (hs : ∀ id r, s.result? id = some r → r.success = true) {halt : Halt}
    (hh : ∀ id message, halt ≠ .nodeFailed id message) : Accounted (s.haltWith halt) where
  alive hn := by cases hn
  failed id r hr hf := absurd (hs id r hr) (by simp [hf])
  named id message hn := absurd (Option.some.inj hn) (hh id message)

theorem lose (h : Accounted s) (hs : s.halt ≠ none) (id : String) : Accounted (s.lose id) :=
  ⟨fun hn => absurd hn hs, h.failed, h.named⟩

/-- A success is recorded, in the loop or after it. -/
theorem record (h : Accounted s) (hnd : (s.running.map Task.id).Nodup) {t : Task} {r : NodeResult}
    (hnode : r.node = t.id) (hs : r.success = true) : Accounted ((s.lose t.id).record r) := by
  have hext : s.Extends ((s.lose t.id).record r) := State.record_extends (s.lose t.id) r
  refine ⟨fun hn u hu => ?_, fun id q hq hf => ?_, fun id message hn => ?_⟩
  · rcases h.alive hn u hu with hr | ⟨q, hq, hok⟩
    · by_cases hut : u.id = t.id
      · have hres : ((s.lose t.id).record r).result? u.id = (s.result? u.id).or (some r) := by
          rw [State.result?_record, if_pos (hut.trans hnode.symm), State.result?_lose]
        cases hold : s.result? u.id with
        | none => exact Or.inr ⟨r, by rw [hres, hold, Option.none_or], hs⟩
        | some q => exact Or.inr ⟨q, hext _ q hold, h.success_of_going hn hold⟩
      · exact Or.inl ((State.mem_eraseP_id hnd).mpr ⟨hr, hut⟩)
    · exact Or.inr ⟨q, hext _ q hq, hok⟩
  · rw [State.result?_record, Option.or_eq_some_iff] at hq
    rcases hq with hq | ⟨-, hq⟩
    · exact h.failed id q hq hf
    · split at hq
      · cases hq
        exact absurd hs (by simp [hf])
      · cases hq
  · obtain ⟨q, hq, hqs⟩ := h.named id message hn
    exact ⟨q, hext id q hq, hqs⟩

/-- A failure is recorded and halts the run. -/
theorem fail (hs : ∀ id q, s.result? id = some q → q.success = true) {t : Task} {r : NodeResult}
    (hnode : r.node = t.id) (hnone : s.result? t.id = none) (hf : r.success = false) :
    Accounted (((s.lose t.id).record r).haltWith (.nodeFailed t.id r.errorMessage)) where
  alive hn := by cases hn
  failed id q hq hqf := by
    rw [State.result?_haltWith, State.result?_record, Option.or_eq_some_iff] at hq
    rcases hq with hq | ⟨-, hq⟩
    · exact absurd (hs id q hq) (by simp [hqf])
    · split at hq
      · rename_i hid
        cases hq
        rw [hid, hnode]
        rfl
      · cases hq
  named id message hn := by
    obtain ⟨rfl, rfl⟩ := Halt.nodeFailed.inj (Option.some.inj hn)
    refine ⟨r, ?_, hf, rfl⟩
    rw [State.result?_haltWith, State.result?_record, State.result?_lose, hnone, if_pos hnode.symm,
      Option.none_or]

end Accounted

/-! ### Points of a run -/

structure Invariant (e : Terms) (plan : Plan) (c : Snapshot) : Prop where
  consistent : Consistent e plan c.state
  accounted : Accounted c.state
  going : c.isLeft = false → c.state.halt = none
  draining : c.phase = .draining → c.state.halt ≠ none
  /-- A run that ends without a halt is complete. -/
  complete : c.phase = .ended → c.state.halt = none → c.state.pending = [] ∧ c.state.running = []

theorem pass_halt (e : Terms) (s : State) : (e.pass s).halt = s.halt := State.halt_schedule _ _ s

namespace Invariant

theorem initial (hp : plan.Accepted) : Invariant e plan (.initial plan) where
  consistent := .initial hp
  accounted := .initial
  going _ := rfl
  draining h := by cases h
  complete h := by cases h

theorem inLoop {s : State} {phase : Phase} (hp : phase = .scheduling ∨ phase = .waiting)
    (hc : Consistent e plan s) (ha : Accounted s) (hh : s.halt = none) :
    Invariant e plan ⟨phase, s⟩ where
  consistent := hc
  accounted := ha
  going _ := hh
  draining h := by rcases hp with rfl | rfl <;> cases h
  complete h := by rcases hp with rfl | rfl <;> cases h

/-- A halt leaves the loop. -/
theorem halted {s : State} {phase : Phase} (hp : phase = .draining ∨ phase = .ended)
    (hc : Consistent e plan s) (ha : Accounted s) (hh : s.halt ≠ none) :
    Invariant e plan ⟨phase, s⟩ where
  consistent := hc
  accounted := ha
  going h := by rcases hp with rfl | rfl <;> simp [Snapshot.isLeft] at h
  draining _ := hh
  complete _ h := absurd h hh

theorem step (hp : plan.Accepted) {a b : Snapshot} (h : Invariant e plan a) (hs : Step e a b) :
    Invariant e plan b := by
  obtain ⟨hc, ha, hgoing, hdraining, -⟩ := h
  have hok : ∀ s, a.state = s → a.isLeft = false →
      ∀ id r, s.result? id = some r → r.success = true := by
    rintro s rfl hleft id r hr
    exact ha.success_of_going (hgoing hleft) hr
  cases hs with
  | cancelPass s =>
    exact halted (.inl rfl) (hc.haltWith _) (.haltWith (hok s rfl rfl) (by simp))
      (by simp [State.haltWith])
  | settle s hr =>
    have hnone : (e.pass s).halt = none := (pass_halt e s).trans (hgoing rfl)
    have hap : Accounted (e.pass s) := ha.pass
    unfold State.settle
    split
    · rename_i hempty
      exact {
        consistent := hc.pass hp
        accounted := hap
        going := fun _ => hnone
        draining := fun h => by cases h
        complete := fun _ _ => ⟨List.isEmpty_iff.mp hempty, hr⟩ }
    · exact halted (.inr rfl) ((hc.pass hp).haltWith _)
        (.haltWith (fun id r => hap.success_of_going hnone) (by simp)) (by simp [State.haltWith])
  | await s hr =>
    exact inLoop (.inr rfl) (hc.pass hp) ha.pass ((pass_halt e s).trans (hgoing rfl))
  | cancel s =>
    exact halted (.inl rfl) (hc.haltWith _) (.haltWith (hok s rfl rfl) (by simp))
      (by simp [State.haltWith])
  | expire s hm =>
    exact halted (.inl rfl) (hc.haltWith _) (.haltWith (hok s rfl rfl) (by simp))
      (by simp [State.haltWith])
  | crash s t message ht =>
    exact halted (.inl rfl) ((hc.lose _).haltWith _)
      (.haltWith (s := s.lose t.id) (hok s rfl rfl) (by simp)) (by simp [State.haltWith])
  | finish s t r ht hr =>
    have hnode := e.answer_node t r hr
    have hrecorded := hc.record hp ht hr
    rw [State.finish_eq]
    cases hsucc : r.success with
    | true =>
      exact inLoop (.inl rfl) hrecorded (ha.record (hc.running_nodup hp) hnode hsucc) (hgoing rfl)
    | false =>
      exact halted (.inl rfl) (hrecorded.haltWith _)
        (.fail (hok s rfl rfl) hnode (hc.unanswered t ht) hsucc) (by simp [State.haltWith])
  | drain s t r ht hr =>
    have hhalt : s.halt ≠ none := hdraining rfl
    rw [State.drain_eq]
    cases hsucc : r.success with
    | true =>
      exact halted (.inl rfl) (hc.record hp ht hr)
        (ha.record (hc.running_nodup hp) (e.answer_node t r hr) hsucc) hhalt
    | false => exact halted (.inl rfl) (hc.lose _) (ha.lose hhalt _) hhalt
  | lose s t ht => exact halted (.inl rfl) (hc.lose _) (ha.lose (hdraining rfl) _) (hdraining rfl)
  | close s => exact halted (.inr rfl) hc ha (hdraining rfl)

theorem of_reaches (hp : plan.Accepted) {c : Snapshot} (h : e.Reaches plan c) :
    Invariant e plan c :=
  h.induct (initial hp) fun _ _ _ hinv hs => hinv.step hp hs

end Invariant
end Flowline.Engine
