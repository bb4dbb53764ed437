import Flowline.Engine.Run
import Flowline.Engine.State
import Flowline.Proofs.Document.Distinct
import Mathlib.Data.List.Perm.Basic
import Mathlib.Logic.Relation

/-! Steps of a run: which results one adds to the state, what a scheduling pass starts, and everything
that can happen. -/
namespace Flowline.Engine

/-- The node that a task executes. -/
abbrev Task.id (t : Task) : String := t.invocation.node

namespace State

/-- The task that starts a node. -/
def taskOf (s : State) (runnerOf : String → String) (n : PlanNode) : Task :=
  ⟨runnerOf n.type, s.invocation n⟩

@[simp] theorem taskOf_id (s : State) (runnerOf : String → String) (n : PlanNode) :
    (s.taskOf runnerOf n).id = n.id := rfl

/-! ### Results -/

/-- All results of `s` are still there in `t`. -/
def Extends (s t : State) : Prop := ∀ id r, s.result? id = some r → t.result? id = some r

theorem Extends.refl (s : State) : s.Extends s := fun _ _ h => h

theorem Extends.trans {s t u : State} (hst : s.Extends t) (htu : t.Extends u) : s.Extends u :=
  fun id r h => htu id r (hst id r h)

theorem isReady_iff {s : State} {n : PlanNode} :
    s.isReady n = true ↔ ∀ d ∈ n.dependsOn, ∃ r, s.result? d = some r ∧ r.success = true := by
  simp only [isReady, List.all_eq_true, Option.any_eq_true]

theorem Extends.isReady {s t : State} {n : PlanNode} (h : s.Extends t)
    (hn : s.isReady n = true) : t.isReady n = true := by
  rw [isReady_iff] at hn ⊢
  intro d hd
  obtain ⟨r, hr, hs⟩ := hn d hd
  exact ⟨r, h d r hr, hs⟩

/-- Two states hold results of the same success and output for what a node depends on. -/
def AgreesOn (s t : State) (n : PlanNode) : Prop :=
  ∀ d ∈ n.dependsOn, (s.result? d).map (fun r => (r.success, r.output)) =
    (t.result? d).map fun r => (r.success, r.output)

theorem AgreesOn.isReady_eq {s t : State} {n : PlanNode} (h : s.AgreesOn t n) :
    s.isReady n = t.isReady n := by
  have hsuccess : ∀ d ∈ n.dependsOn,
      (s.result? d).any (·.success) = (t.result? d).any (·.success) := by
    intro d hd
    simpa only [Option.any_map, Function.comp_def] using congrArg (Option.any Prod.fst) (h d hd)
  rw [Bool.eq_iff_iff, isReady, isReady, List.all_eq_true, List.all_eq_true]
  exact forall₂_congr fun d hd => by rw [hsuccess d hd]

theorem AgreesOn.invocation_eq {s t : State} {n : PlanNode} (h : s.AgreesOn t n) :
    s.invocation n = t.invocation n := by
  have hinputs : ∀ d ∈ distinct n.dependsOn, (s.result? d).map (fun r => (d, r.output)) =
      (t.result? d).map (fun r => (d, r.output)) := by
    intro d hd
    have houtput := congrArg (Option.map fun p => (d, p.2)) (h d (mem_distinct.mp hd))
    simpa only [Option.map_map, Function.comp_def] using houtput
  simp only [State.invocation, List.filterMap_congr hinputs]

/-- Later results do not change what a node is given once all its dependencies have ended. -/
theorem Extends.invocation_eq {s t : State} {n : PlanNode} (h : s.Extends t)
    (hn : s.isReady n = true) : t.invocation n = s.invocation n := by
  refine (AgreesOn.invocation_eq fun d hd => ?_).symm
  obtain ⟨r, hr, -⟩ := isReady_iff.mp hn d hd
  rw [hr, h d r hr]

/-- A ready node is given one output for each dependency, in order of first listing. -/
theorem invocation_inputs {s : State} {n : PlanNode} (hn : s.isReady n = true) :
    List.Forall₂
      (fun d i => i.1 = d ∧ ∃ r, s.result? d = some r ∧ r.success = true ∧ i.2 = r.output)
      (distinct n.dependsOn) (s.invocation n).inputs := by
  rw [isReady_iff] at hn
  have hall : ∀ d ∈ distinct n.dependsOn, ∃ r, s.result? d = some r ∧ r.success = true :=
    fun d hd => hn d (mem_distinct.mp hd)
  simp only [State.invocation]
  generalize distinct n.dependsOn = deps at hall ⊢
  induction deps with
  | nil => exact .nil
  | cons d ds ih =>
    obtain ⟨r, hr, hs⟩ := hall d (by simp)
    rw [List.filterMap_cons_some (by rw [hr]; rfl)]
    exact .cons ⟨rfl, r, hr, hs, rfl⟩ (ih fun e he => hall e (by simp [he]))

theorem record_results_of_some {s : State} {r q : NodeResult} (h : s.result? r.node = some q) :
    (s.record r).results = s.results := by
  simp only [record, h, Option.isSome_some, if_true]

theorem record_results_of_none {s : State} {r : NodeResult} (h : s.result? r.node = none) :
    (s.record r).results = s.results ++ [(r.node, r)] := by
  simp [record, h]

theorem result?_record (s : State) (r : NodeResult) (id : String) :
    (s.record r).result? id = (s.result? id).or (if id = r.node then some r else none) := by
  cases h : s.result? r.node with
  | some q =>
    have hsame : (s.record r).result? id = s.result? id :=
      congrArg (List.lookup id) (record_results_of_some h)
    by_cases hid : id = r.node
    · rw [hsame, hid, h, Option.some_or]
    · rw [hsame, if_neg hid, Option.or_none]
  | none =>
    rw [result?, record_results_of_none h, List.lookup_append, List.lookup_cons, List.lookup_nil]
    by_cases hid : id = r.node
    · simp [hid, result?]
    · simp [hid, result?, beq_eq_false_iff_ne.mpr hid]

theorem record_extends (s : State) (r : NodeResult) : s.Extends (s.record r) := by
  intro id r' h
  rw [result?_record, h, Option.some_or]

/-! ### Scheduling -/

/-- One scheduling pass goes once through the waiting nodes: those that it starts are ready and keep
their order, and if it leaves room then no node that still waits is ready. -/
theorem startReady_spec (limit : Option Nat) (runnerOf : String → String) (s : State)
    (nodes : List PlanNode) :
    ∃ launched kept : List PlanNode, (launched ++ kept).Perm nodes ∧ launched.Sublist nodes ∧
      kept.Sublist nodes ∧ (∀ n ∈ launched, s.isReady n = true) ∧
      startReady limit runnerOf s nodes =
        { s with
          pending := s.pending ++ kept
          running := s.running ++ launched.map (s.taskOf runnerOf)
          started := s.started ++ launched.map (s.taskOf runnerOf)
          events := s.events ++ launched.map fun n => .nodeStarted n.id n.type (runnerOf n.type) } ∧
      ((startReady limit runnerOf s nodes).hasRoom limit = true →
        ∀ n ∈ kept, s.isReady n = false) := by
  induction nodes generalizing s with
  | nil => exact ⟨[], [], by simp [startReady]⟩
  | cons n rest ih =>
    by_cases hn : s.hasRoom limit = true ∧ s.isReady n = true
    · obtain ⟨launched, kept, hperm, hl, hk, hready, heq, hroom⟩ := ih (s.start (runnerOf n.type) n)
      refine ⟨n :: launched, kept, hperm.cons n, hl.cons_cons n, hk.cons n, ?_, ?_, ?_⟩
      · simpa using ⟨hn.2, hready⟩
      · simp only [startReady, hn.1, hn.2, Bool.and_self, if_true, heq]
        simp [State.start, taskOf, State.invocation, result?]
      · simp only [startReady, hn.1, hn.2, Bool.and_self, if_true]
        exact hroom
    · obtain ⟨launched, kept, hperm, hl, hk, hready, heq, hroom⟩ :=
        ih { s with pending := s.pending ++ [n] }
      have hstep : startReady limit runnerOf s (n :: rest) =
          startReady limit runnerOf { s with pending := s.pending ++ [n] } rest := by
        rw [startReady, if_neg (by simpa using hn)]
      refine ⟨launched, n :: kept, List.perm_middle.trans (hperm.cons n), hl.cons n, hk.cons_cons n,
        hready, ?_, ?_⟩
      · rw [hstep, heq]
        simp [taskOf, State.invocation, result?]
      · intro hr m hm
        rw [hstep] at hr
        rcases List.mem_cons.mp hm with rfl | hm
        · -- Tasks only join a pass, so room at its end was room when this node was looked at.
          have hroom₀ : s.hasRoom limit = true := by
            rw [heq] at hr
            cases limit with
            | none => rfl
            | some k =>
              simp only [hasRoom, Option.all_some, decide_eq_true_eq, List.length_append] at hr ⊢
              omega
          simpa [hroom₀] using hn
        · exact hroom hr m hm

theorem halt_schedule (limit : Option Nat) (runnerOf : String → String) (s : State) :
    (s.schedule limit runnerOf).halt = s.halt := by
  obtain ⟨launched, kept, -, -, -, -, heq, -⟩ :=
    startReady_spec limit runnerOf { s with pending := [] } s.pending
  rw [schedule, heq]

end State

/-!
### Everything that can happen in a run

`Engine.run` follows one host. Here tasks end in any order and with any result that their runner may
give, and at every moment at which the loop looks up the run may be cancelled, may have used up its
time, or may lose a task that crashes. `Step` is one turn of that loop, `Terms.Reaches` a run of it.
-/

/-- What a run goes by. -/
structure Terms where
  settings : EngineSettings
  runners : List Runner
  /-- The results that a task may end with. -/
  answers : Task → NodeResult → Prop
  /-- A runner answers for the node that it was given. -/
  answer_node : ∀ t r, answers t r → r.node = t.id

/-- The name of the runner that a type is assigned to. -/
def Terms.runnerOf (e : Terms) (type : String) : String :=
  ((select e.runners type).map (·.name)).getD ""

/-- One scheduling pass. -/
def Terms.pass (e : Terms) (s : State) : State := s.schedule e.settings.limit e.runnerOf

/-- Where a run stands in its loop. -/
inductive Phase where
  | scheduling
  | waiting
  /-- The run is halted and takes in what still runs. -/
  | draining
  | ended
deriving DecidableEq

/-- A run at one moment. -/
structure Snapshot where
  phase : Phase
  state : State

/-- The loop is left: nothing is scheduled any more. -/
def Snapshot.isLeft (c : Snapshot) : Bool := c.phase = .draining || c.phase = .ended

/-- Why a run is halted from outside: neither by the result of a node nor for want of one. -/
def Halt.isInterruption : Halt → Bool
  | cancelled | deadline _ | crashed _ => true
  | nodeFailed .. | stalled _ => false

/-- The run was not halted from outside. -/
def State.isUndisturbed (s : State) : Bool := !s.halt.any Halt.isInterruption

/-- A task ends without a result. -/
def State.lose (s : State) (id : String) : State :=
  { s with running := s.running.eraseP (·.invocation.node == id) }

inductive Step (e : Terms) : Snapshot → Snapshot → Prop where
  | cancelPass (s : State) : Step e ⟨.scheduling, s⟩ ⟨.draining, s.haltWith .cancelled⟩
  | settle (s : State) (hr : (e.pass s).running = []) :
      Step e ⟨.scheduling, s⟩ ⟨.ended, (e.pass s).settle⟩
  | await (s : State) (hr : (e.pass s).running ≠ []) :
      Step e ⟨.scheduling, s⟩ ⟨.waiting, e.pass s⟩
  | cancel (s : State) : Step e ⟨.waiting, s⟩ ⟨.draining, s.haltWith .cancelled⟩
  | expire (s : State) (hm : 0 < e.settings.maxSeconds) :
      Step e ⟨.waiting, s⟩ ⟨.draining, s.haltWith (.deadline e.settings.maxSeconds)⟩
  | crash (s : State) (t : Task) (message : String) (ht : t ∈ s.running) :
      Step e ⟨.waiting, s⟩ ⟨.draining, (s.lose t.id).haltWith (.crashed message)⟩
  | finish (s : State) (t : Task) (r : NodeResult) (ht : t ∈ s.running) (hr : e.answers t r) :
      Step e ⟨.waiting, s⟩
        ⟨if r.success then .scheduling else .draining, s.finish t.id r⟩
  | drain (s : State) (t : Task) (r : NodeResult) (ht : t ∈ s.running) (hr : e.answers t r) :
      Step e ⟨.draining, s⟩ ⟨.draining, s.drain t.id r⟩
  | lose (s : State) (t : Task) (ht : t ∈ s.running) :
      Step e ⟨.draining, s⟩ ⟨.draining, s.lose t.id⟩
  /-- What still runs is given up. -/
  | close (s : State) : Step e ⟨.draining, s⟩ ⟨.ended, s⟩

/-- A run from one moment to a later one. -/
abbrev Steps (e : Terms) : Snapshot → Snapshot → Prop := Relation.ReflTransGen (Step e)

def Snapshot.initial (plan : Plan) : Snapshot := ⟨.scheduling, .initial plan⟩

/-- The run of a plan comes to this point. -/
def Terms.Reaches (e : Terms) (plan : Plan) (c : Snapshot) : Prop := Steps e (.initial plan) c

/-- What every step from a reached point keeps holds in all of a run. -/
theorem Terms.Reaches.induct {e : Terms} {plan : Plan} {p : Snapshot → Prop} {c : Snapshot}
    (h : e.Reaches plan c) (initial : p (.initial plan))
    (step : ∀ a b, e.Reaches plan a → p a → Step e a b → p b) : p c := by
  induction h with
  | refl => exact initial
  | tail hab hbc ih => exact step _ _ hab ih hbc

/-- Two nodes, the second of which lists the first twice. -/
def chainPlan : Plan :=
  { (default : Plan) with
    nodes := [{ (default : PlanNode) with id := "a" },
      { (default : PlanNode) with id := "b", dependsOn := ["a", "a"] }]
    order := ["a", "b"] }

/-- Every node succeeds with its own id. -/
def echo (settings : EngineSettings) : Terms where
  settings
  runners := [⟨"echo", fun _ => true⟩]
  answers t r := r = .succeed t.id (.str t.id)
  answer_node t r h := by rw [h]; rfl

end Flowline.Engine
