import Flowline.Proofs.Engine.Reference
import Flowline.Setup

/-!
# The loop of the engine is a run

What `Engine.run` ends with is the end of a run in the sense of `Terms.Reaches`. For this a host has
to answer as the terms say, under the id of the node that it was given; only when the run has been
stopped it may also fail. The hosts of a setup do.
-/
namespace Flowline
namespace Engine

variable {σ : Type} {host : Host σ} {e : Terms} {plan : Plan} {s : State} {arrivals : List Arrival}
  {p : Task → NodeResult → Prop}

/-- What a stopped run may still take in: an answer, or a failure that is left out. -/
def Terms.late (e : Terms) (t : Task) (r : NodeResult) : Prop := e.answers t r ∨ r.success = false

/-- The host executes tasks under these terms. -/
structure Host.Serves (host : Host σ) (e : Terms) : Prop where
  runners : host.runners = e.runners
  answers : ∀ t now w, e.answers t (host.execute t false now w).1.1
  late : ∀ t now w, e.late t (host.execute t true now w).1.1

/-! ### Arrivals -/

/-- What is still to come in are results with `p` of running tasks, each once. -/
structure Awaits (p : Task → NodeResult → Prop) (s : State) (arrivals : List Arrival) : Prop where
  nodup : (arrivals.map (·.node)).Nodup
  answers : ∀ a ∈ arrivals, ∃ t ∈ s.running, t.id = a.node ∧ p t a.result

theorem Awaits.nil : Awaits p s [] := ⟨List.nodup_nil, by simp⟩

theorem Awaits.sublist {there : List Arrival} (h : Awaits p s arrivals)
    (hsub : there.Sublist arrivals) : Awaits p s there :=
  ⟨h.nodup.sublist (hsub.map _), fun a ha => h.answers a (hsub.subset ha)⟩

theorem Awaits.mono {s' : State} (h : Awaits p s arrivals)
    (hrun : ∀ t ∈ s.running, t ∈ s'.running) :
    Awaits p s' arrivals where
  nodup := h.nodup
  answers a ha := by
    obtain ⟨t, ht, hid, hr⟩ := h.answers a ha
    exact ⟨t, hrun t ht, hid, hr⟩

theorem Awaits.late (h : Awaits e.answers s arrivals) : Awaits e.late s arrivals where
  nodup := h.nodup
  answers a ha := by
    obtain ⟨t, ht, hid, hr⟩ := h.answers a ha
    exact ⟨t, ht, hid, Or.inl hr⟩

/-- Once a task has ended, the others are still awaited. -/
theorem Awaits.tail {a : Arrival} {rest : List Arrival} {s' : State} (h : Awaits p s (a :: rest))
    (hnd : (s.running.map Task.id).Nodup)
    (hrun : s'.running = s.running.eraseP (·.invocation.node == a.node)) : Awaits p s' rest where
  nodup := (List.nodup_cons.mp h.nodup).2
  answers b hb := by
    obtain ⟨t, ht, hid, hr⟩ := h.answers b (List.mem_cons_of_mem _ hb)
    have hne : t.id ≠ a.node := fun hta =>
      (List.nodup_cons.mp h.nodup).1 (List.mem_map.mpr ⟨b, hb, hid.symm.trans hta⟩)
    exact ⟨t, hrun ▸ (State.mem_eraseP_id hnd).mpr ⟨ht, hne⟩, hid, hr⟩

theorem Arrival.insert_perm (a : Arrival) (arrivals : List Arrival) :
    (a.insert arrivals).Perm (a :: arrivals) := by
  induction arrivals with
  | nil => exact .refl _
  | cons b rest ih =>
    unfold Arrival.insert
    split
    · exact .refl _
    · exact (ih.cons b).trans (.swap a b rest)

theorem Awaits.insert (h : Awaits p s arrivals) {a : Arrival} {t : Task} (ht : t ∈ s.running)
    (hid : t.id = a.node) (hr : p t a.result) (hnew : a.node ∉ arrivals.map (·.node)) :
    Awaits p s (a.insert arrivals) where
  nodup := by
    rw [((a.insert_perm arrivals).map _).nodup_iff, List.map_cons, List.nodup_cons]
    exact ⟨hnew, h.nodup⟩
  answers b hb := by
    rcases List.mem_cons.mp ((a.insert_perm arrivals).subset hb) with rfl | hb
    · exact ⟨t, ht, hid, hr⟩
    · exact h.answers b hb

/-- Each executed task arrives. -/
theorem executeAll_spec {stopped : Bool} {now : Nat}
    (hp : ∀ t w, p t (host.execute t stopped now w).1.1) {tasks : List Task}
    (htasks : ∀ t ∈ tasks, t ∈ s.running) (hnodup : (tasks.map Task.id).Nodup) (w : σ)
    (h : Awaits p s arrivals) (hnew : ∀ t ∈ tasks, t.id ∉ arrivals.map (·.node)) :
    Awaits p s (executeAll host stopped now tasks arrivals w).1 ∧
      ((executeAll host stopped now tasks arrivals w).1.map (·.node)).Perm
        (tasks.map Task.id ++ arrivals.map (·.node)) := by
  induction tasks generalizing arrivals w with
  | nil => exact ⟨h, .refl _⟩
  | cons t tasks ih =>
    simp only [List.map_cons, List.nodup_cons] at hnodup
    let a : Arrival :=
      ⟨now + (host.execute t stopped now w).1.2, t.id, (host.execute t stopped now w).1.1⟩
    have hperm : ((a.insert arrivals).map (·.node)).Perm (t.id :: arrivals.map (·.node)) :=
      (a.insert_perm arrivals).map _
    have hnext : Awaits p s (a.insert arrivals) :=
      h.insert (htasks t (by simp)) rfl (hp t w) (hnew t (by simp))
    have hlater : ∀ u ∈ tasks, u.id ∉ (a.insert arrivals).map (·.node) := by
      intro u hu hmem
      rcases List.mem_cons.mp (hperm.subset hmem) with hid | hid
      · exact hnodup.1 (List.mem_map.mpr ⟨u, hu, hid⟩)
      · exact hnew u (List.mem_cons_of_mem _ hu) hid
    obtain ⟨hawaits, hids⟩ := ih (fun u hu => htasks u (List.mem_cons_of_mem _ hu)) hnodup.2
      (host.execute t stopped now w).2 hnext hlater
    exact ⟨hawaits, hids.trans ((hperm.append_left _).trans List.perm_middle)⟩

theorem unexecuted_new {t : Task} (ht : t ∈ unexecuted s arrivals) :
    t ∈ s.running ∧ t.id ∉ arrivals.map (·.node) := by
  obtain ⟨hrun, hany⟩ := List.mem_filter.mp ht
  refine ⟨hrun, fun hmem => ?_⟩
  obtain ⟨a, ha, hid⟩ := List.mem_map.mp hmem
  have hsome : arrivals.any (·.node == t.invocation.node) = true :=
    List.any_eq_true.mpr ⟨a, ha, by simpa using hid⟩
  simp [hsome] at hany

/-! ### A halted run -/

/-- The results that have come in are taken in one by one. -/
theorem steps_drain (hnd : (s.running.map Task.id).Nodup) (h : Awaits e.late s arrivals) :
    Steps e ⟨.draining, s⟩ ⟨.draining, arrivals.foldl (fun s a => s.drain a.node a.result) s⟩ := by
  induction arrivals generalizing s with
  | nil => exact .refl
  | cons a arrivals ih =>
    obtain ⟨t, ht, hid, hr⟩ := h.answers a List.mem_cons_self
    have hrunning : (s.drain a.node a.result).running =
        s.running.eraseP (·.invocation.node == a.node) := by
      rw [State.drain_eq]
      split <;> rfl
    have hnd' : ((s.drain a.node a.result).running.map Task.id).Nodup := by
      rw [hrunning]
      exact hnd.sublist (List.eraseP_sublist.map _)
    have hstep : Step e ⟨.draining, s⟩ ⟨.draining, s.drain a.node a.result⟩ := by
      rw [← hid]
      rcases hr with hr | hfail
      · exact .drain s t a.result ht hr
      · rw [State.drain_eq, hfail]
        exact .lose s t ht
    exact .head hstep (ih hnd' (h.tail hnd hrunning))

theorem steps_finishHalted (hhost : host.Serves e) (runId : String)
    (hnd : (s.running.map Task.id).Nodup) (now : Nat) (h : Awaits e.answers s arrivals) (w : σ) :
    Steps e ⟨.draining, s⟩ ⟨.ended, (finishHalted host runId s now arrivals w).1⟩ := by
  unfold finishHalted
  split
  · exact .single (.close s)
  · have hnew : ∀ t ∈ unexecuted s arrivals, t.id ∉ ([] : List Arrival).map (·.node) := by simp
    have hsub : (unexecuted s arrivals).Sublist s.running := List.filter_sublist
    obtain ⟨hlate, hids⟩ := executeAll_spec (fun t w => hhost.late t now w)
      (fun t ht => hsub.subset ht) (hnd.sublist (hsub.map _)) (host.stop runId w) Awaits.nil hnew
    have hthere : Awaits e.late s (arrivals.takeWhile (·.moment ≤ now)) :=
      (h.sublist (List.takeWhile_sublist _)).late
    refine .tail (steps_drain hnd ⟨?_, fun a ha => ?_⟩) (.close _)
    · rw [List.map_append, List.nodup_append]
      refine ⟨hthere.nodup, hlate.nodup, fun a ha b hb hab => ?_⟩
      rw [List.map_nil, List.append_nil] at hids
      obtain ⟨t, ht, rfl⟩ := List.mem_map.mp (hids.subset hb)
      exact (unexecuted_new ht).2 (hab ▸ ((List.takeWhile_sublist _).map _).subset ha)
    · exact (List.mem_append.mp ha).elim (hthere.answers a) (hlate.answers a)

/-! ### The loop -/

theorem mem_running_pass (e : Terms) {s : State} {t : Task} (ht : t ∈ s.running) :
    t ∈ (e.pass s).running := by
  obtain ⟨launched, kept, -, -, -, heq, -⟩ := e.pass_spec s
  rw [heq]
  exact List.mem_append_left _ ht

theorem running_finish (s : State) (id : String) (r : NodeResult) :
    (s.finish id r).running = s.running.eraseP (·.invocation.node == id) := by
  rw [State.finish_eq]
  split <;> rfl

theorem pending_finish (s : State) (id : String) (r : NodeResult) :
    (s.finish id r).pending = s.pending := by
  rw [State.finish_eq]
  split <;> rfl

theorem halt_finish (s : State) (id : String) (r : NodeResult) (hs : s.halt = none) :
    (s.finish id r).halt.isSome = !r.success := by
  rw [State.finish_eq]
  cases r.success
  · rfl
  · exact congrArg Option.isSome hs

/-- The results that come in next: at least one, when a task runs. -/
theorem arrivals_spec (hhost : host.Serves e) (hnd : (s.running.map Task.id).Nodup)
    (hr : s.running ≠ []) (h : Awaits e.answers s arrivals) (now : Nat) (w : σ)
    {later : List Arrival × σ}
    (hlater : (if arrivals.any (·.moment ≤ now) then (arrivals, w)
      else executeAll host false now (unexecuted s arrivals) arrivals w) = later) :
    Awaits e.answers s later.1 ∧ later.1 ≠ [] := by
  split at hlater
  · rename_i hdue
    rw [← hlater]
    exact ⟨h, fun hnil => by simp only at hnil; simp [hnil] at hdue⟩
  · have hsub : (unexecuted s arrivals).Sublist s.running := List.filter_sublist
    obtain ⟨hawaits, hids⟩ := executeAll_spec (fun t w => hhost.answers t now w)
      (fun t ht => hsub.subset ht) (hnd.sublist (hsub.map _)) w h fun t ht => (unexecuted_new ht).2
    rw [← hlater]
    refine ⟨hawaits, fun hnil => ?_⟩
    rw [hnil, List.map_nil, List.nil_perm, List.append_eq_nil_iff, List.map_eq_nil_iff,
      List.map_eq_nil_iff] at hids
    rw [unexecuted, hids.2] at hids
    exact hr (by simpa using hids.1)

theorem reaches_rounds (hp : plan.Accepted) (hhost : host.Serves e) (runId : String) {fuel : Nat}
    {now : Nat} (w : σ) (hs : e.Reaches plan ⟨.scheduling, s⟩) (ha : Awaits e.answers s arrivals)
    (hfuel : s.pending.length + s.running.length < fuel) :
    e.Reaches plan ⟨.ended, (rounds host e.settings.limit runId fuel s now arrivals w).1⟩ := by
  induction fuel generalizing s now arrivals w with
  | zero => exact absurd hfuel (Nat.not_lt_zero _)
  | succ fuel ih =>
    have hinv := Invariant.of_reaches hp hs
    have hpass : s.schedule e.settings.limit
        (fun type => ((select host.runners type).map (·.name)).getD "") = e.pass s := by
      rw [hhost.runners]
      rfl
    unfold rounds
    split
    · exact (hs.tail (.cancelPass s)).trans (steps_finishHalted (s := s.haltWith .cancelled) hhost
        runId (hinv.consistent.running_nodup hp) now (ha.mono fun _ => id) w)
    simp only [hpass]
    split
    · rename_i hidle
      exact hs.tail (.settle s (List.isEmpty_iff.mp hidle))
    · rename_i hbusy
      have hr : (e.pass s).running ≠ [] := fun hnil => hbusy (List.isEmpty_iff.mpr hnil)
      have hwait : e.Reaches plan ⟨.waiting, e.pass s⟩ := hs.tail (.await s hr)
      have hnd := (hinv.consistent.pass hp).running_nodup hp
      generalize hlater : (if arrivals.any (·.moment ≤ now) then (arrivals, w)
        else executeAll host false now (unexecuted (e.pass s) arrivals) arrivals w) = later
      obtain ⟨hawaits, hne⟩ := arrivals_spec hhost hnd hr
        (ha.mono fun t ht => mem_running_pass e ht) now w hlater
      obtain ⟨arrivals', w'⟩ := later
      cases arrivals' with
      | nil => exact absurd rfl hne
      | cons a rest =>
        simp only
        split
        · exact (hwait.tail (.cancel _)).trans (steps_finishHalted
            (s := (e.pass s).haltWith .cancelled) hhost runId hnd _ (hawaits.mono fun _ => id) w')
        · obtain ⟨t, ht, hid, hanswers⟩ := hawaits.answers a List.mem_cons_self
          have hfinish := hid ▸ Step.finish (e.pass s) t a.result ht hanswers
          have hrest : Awaits e.answers ((e.pass s).finish a.node a.result) rest :=
            hawaits.tail hnd (running_finish _ _ _)
          have hhalt := halt_finish (e.pass s) a.node a.result
            ((pass_halt e s).trans (hinv.going rfl))
          cases hsucc : a.result.success with
          | false =>
            rw [hsucc] at hfinish
            rw [if_pos (by rw [hhalt, hsucc]; rfl)]
            refine (hwait.tail hfinish).trans (steps_finishHalted hhost runId ?_ _ hrest w')
            rw [running_finish]
            exact hnd.sublist (List.eraseP_sublist.map _)
          | true =>
            rw [hsucc] at hfinish
            rw [if_neg (by simp [hhalt, hsucc])]
            refine ih w' (hwait.tail hfinish) hrest ?_
            have hlen := length_pass e s
            have hlose := State.length_lose ht
            rw [pending_finish, running_finish, ← hid]
            simp only [State.lose] at hlose
            omega

/-- Whatever the engine ends with, a run under the terms of its host comes to that. -/
theorem reaches_finalState (hp : plan.Accepted) (hhost : host.Serves e) (runId : String) (w : σ) :
    e.Reaches plan ⟨.ended, (finalState host e.settings plan runId w).1⟩ := by
  refine reaches_rounds hp hhost runId w .refl .nil ?_
  have hlen : (State.initial plan).pending.length ≤ plan.order.length :=
    List.length_filterMap_le _ _
  exact Nat.lt_succ_of_le hlen

theorem reaches_run (hhost : host.Serves e) {runId : String} {w w' : σ}
    (hrun : run host e.settings plan runId w = (.ok s, w')) :
    startError? e.runners plan = none ∧ e.Reaches plan ⟨.ended, s⟩ := by
  unfold run at hrun
  rw [hhost.runners] at hrun
  split at hrun
  · simp at hrun
  · rename_i hstart
    simp only [Prod.mk.injEq, Except.ok.injEq] at hrun
    refine ⟨hstart, hrun.1 ▸ ?_⟩
    exact reaches_finalState (Plan.startError?_eq_none_iff.mp hstart).1 hhost runId w

/-! ### Runs that are not cancelled -/

theorem halt_foldl_drain (arrivals : List Arrival) (s : State) :
    (arrivals.foldl (fun s a => s.drain a.node a.result) s).halt = s.halt := by
  induction arrivals generalizing s with
  | nil => rfl
  | cons a arrivals ih =>
    rw [List.foldl_cons, ih, State.drain_eq]
    split <;> rfl

theorem halt_finishHalted (runId : String) (s : State) (now : Nat) (arrivals : List Arrival)
    (w : σ) :
    (finishHalted host runId s now arrivals w).1.halt = s.halt := by
  unfold finishHalted
  split
  · rfl
  · exact halt_foldl_drain _ _

/-- In worlds with `q` no run is cancelled, and executing tasks keeps `q`. -/
structure Host.NeverCancels (host : Host σ) (q : σ → Prop) : Prop where
  cancelledAt : ∀ w, q w → host.cancelledAt w = none
  execute : ∀ t stopped now w, q w → q (host.execute t stopped now w).2

theorem executeAll_keeps {q : σ → Prop} (hq : host.NeverCancels q) (stopped : Bool) (now : Nat)
    (tasks : List Task) (arrivals : List Arrival) {w : σ} (hw : q w) :
    q (executeAll host stopped now tasks arrivals w).2 := by
  induction tasks generalizing arrivals w with
  | nil => exact hw
  | cons t tasks ih => exact ih _ (hq.execute t stopped now w hw)

theorem isUndisturbed_finish {s : State} (h : s.isUndisturbed = true) (id : String)
    (r : NodeResult) :
    (s.finish id r).isUndisturbed = true := by
  rw [State.finish_eq]
  split
  · exact h
  · rfl

theorem isUndisturbed_settle {s : State} (h : s.isUndisturbed = true) :
    s.settle.isUndisturbed = true := by
  unfold State.settle
  split
  · exact h
  · rfl

theorem isUndisturbed_rounds {q : σ → Prop} (hq : host.NeverCancels q) (settings : EngineSettings)
    (runId : String) {fuel now : Nat} {w : σ} (hw : q w) (h : s.isUndisturbed = true) :
    (rounds host settings.limit runId fuel s now arrivals w).1.isUndisturbed = true := by
  induction fuel generalizing s now arrivals w with
  | zero =>
    unfold rounds
    rw [State.isUndisturbed, halt_finishHalted]
    exact h
  | succ fuel ih =>
    unfold rounds
    rw [hq.cancelledAt w hw]
    simp only [Option.any_none, Bool.false_eq_true, if_false]
    generalize hs : s.schedule settings.limit
      (fun type => ((select host.runners type).map (·.name)).getD "") = s'
    have hpass : s'.isUndisturbed = true := by
      rw [← hs, State.isUndisturbed, State.halt_schedule]
      exact h
    split
    · exact isUndisturbed_settle hpass
    · generalize hlater : (if arrivals.any (·.moment ≤ now) then (arrivals, w)
        else executeAll host false now (unexecuted s' arrivals) arrivals w) = later
      have hw' : q later.2 := by
        rw [← hlater]
        split
        · exact hw
        · exact executeAll_keeps hq false now _ _ hw
      obtain ⟨arrivals', w'⟩ := later
      cases arrivals' with
      | nil => exact hpass
      | cons a rest =>
        simp only [hq.cancelledAt w' hw', Option.filter_none]
        have hfinish := isUndisturbed_finish hpass a.node a.result
        split
        · rw [State.isUndisturbed, halt_finishHalted]
          exact hfinish
        · exact ih hw' hfinish

/-- A run on such a host ends without being halted from outside. -/
theorem endsIn_run {q : σ → Prop} (hhost : host.Serves e) (hq : host.NeverCancels q)
    (runId : String) {w : σ} (hw : q w) (hstart : startError? e.runners plan = none) :
    ∃ s w', run host e.settings plan runId w = (.ok s, w') ∧ e.EndsIn plan s := by
  refine ⟨(finalState host e.settings plan runId w).1, (finalState host e.settings plan runId w).2,
    ?_, ?_, isUndisturbed_rounds hq _ _ hw rfl⟩
  · unfold run
    rw [hhost.runners, hstart]
  · exact reaches_finalState (Plan.startError?_eq_none_iff.mp hstart).1 hhost runId w

/-- The host answers under the id of the node that it was given. -/
def Host.IsFaithful (host : Host σ) : Prop :=
  ∀ t stopped now w, (host.execute t stopped now w).1.1.node = t.id

end Engine

/-! ### The hosts of a setup -/

theorem Node.executeBuiltin_node (cancelled : Bool) (i : Invocation) :
    (executeBuiltin cancelled i).node = i.node := by
  unfold executeBuiltin
  split
  · rfl
  · split
    · rfl
    · split <;> rfl

theorem Node.resultOf_node (node : String) (elapsed : Nat) (outcome : Except SandboxError Output) :
    (resultOf node elapsed outcome).node = node := by
  unfold resultOf
  split <;> rfl

theorem Node.executeUnit_node (stage : UnitStage) (i : Invocation) (l : Language)
    (entry : EntryPoint) (scanEntry : Bool) :
    (executeUnit stage i l entry scanEntry).1.node = i.node := by
  unfold executeUnit
  split
  · rfl
  · exact resultOf_node _ _ _

theorem Node.executeCustom_node (stage : UnitStage) (registry : Registry) (files : Entry)
    (i : Invocation) : (executeCustom stage registry files i).1.node = i.node := by
  unfold executeCustom
  split
  · rfl
  · dsimp only
    split
    · exact executeUnit_node _ _ _ _ _
    · rfl

theorem Setup.host_isFaithful (s : Setup) (files : Entry) (units : UnitHost) (c : Context) :
    (s.host files units c).IsFaithful := by
  intro t stopped now w
  simp only [Setup.host, Setup.execute]
  split
  · exact Node.executeBuiltin_node _ _
  · exact Node.executeUnit_node _ _ _ _ _
  · exact Node.executeUnit_node _ _ _ _ _
  · exact Node.executeCustom_node _ _ _ _

namespace Engine

/-- Builtin types are assigned to a runner that executes them in its own process. -/
structure Terms.HasBuiltins (e : Terms) : Prop where
  assigned : ∀ type, Node.isBuiltin type = true → e.runnerOf type = "builtin"
  executed : ∀ t r, t.runner = "builtin" → e.answers t r →
    r.untimed = (Node.executeBuiltin false t.invocation).untimed

end Engine

namespace Setup

/-- The terms of a setup: what the builtin runner answers is determined. -/
def terms (s : Setup) (settings : EngineSettings) : Engine.Terms where
  settings
  runners := s.runners
  answers t r := r.node = t.id ∧ (t.runner = "builtin" → r = Node.executeBuiltin false t.invocation)
  answer_node _ _ h := h.1

theorem select_runners (s : Setup) {type : String} (h : Node.isBuiltin type = true) :
    Engine.select s.runners type = some ⟨"builtin", Node.isBuiltin⟩ :=
  List.find?_cons_of_pos h

theorem terms_hasBuiltins (s : Setup) (settings : EngineSettings) :
    (s.terms settings).HasBuiltins where
  assigned type h := by
    change ((Engine.select s.runners type).map (·.name)).getD "" = "builtin"
    rw [s.select_runners h]
    rfl
  executed t r hrunner h := congrArg NodeResult.untimed (h.2 hrunner)

theorem execute_builtin (s : Setup) (files : Entry) (stage : Node.UnitStage) {t : Engine.Task}
    (h : t.runner = "builtin") :
    (s.execute files stage t).1 = Node.executeBuiltin stage.stopped t.invocation := by
  simp only [Setup.execute, h]

theorem serves_terms (s : Setup) (settings : EngineSettings) (files : Entry) (units : UnitHost)
    (c : Context) : (s.host files units c).Serves (s.terms settings) where
  runners := rfl
  answers t now w := ⟨s.host_isFaithful files units c t false now w, s.execute_builtin files _⟩
  late t now w := by
    by_cases hrunner : t.runner = "builtin"
    · refine Or.inr ?_
      change (s.execute files ⟨units, c, true⟩ t).1.success = false
      rw [s.execute_builtin files _ hrunner]
      rfl
    · exact Or.inl ⟨s.host_isFaithful files units c t true now w, fun h => absurd h hrunner⟩

theorem neverCancels (s : Setup) (files : Entry) (units : UnitHost) (c : Context) :
    (s.host files units c).NeverCancels (· = none) := ⟨fun _ h => h, fun _ _ _ _ h => h⟩

end Setup
end Flowline
