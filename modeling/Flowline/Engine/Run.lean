import Flowline.Engine.State
import Flowline.Error
import Flowline.Run.Store

/-! Runs of a plan. Nodes started in one pass are executed together before the engine sees a result;
results are then taken in one at a time, with a scheduling pass after each. -/
namespace Flowline.Engine

/-- Executes nodes of certain types. -/
structure Runner where
  name : String
  handles : String → Bool

/-- Where tasks are executed. It may change with each execution. -/
structure Host (σ : Type) where
  runners : List Runner
  /-- The moment at which the run is cancelled, if that is known. -/
  cancelledAt : σ → Option Nat
  /-- Executes a task at a moment: its result and how long it takes. The mark says whether the run
  has been stopped. -/
  execute : Task → Bool → Nat → σ → (NodeResult × Nat) × σ
  /-- Stops what still runs for a run. -/
  stop : String → σ → σ

/-- A result that comes in at a moment. -/
structure Arrival where
  moment : Nat
  node : String
  result : NodeResult

/-- Adds a result behind those that come in no later. -/
def Arrival.insert (a : Arrival) : List Arrival → List Arrival
  | [] => [a]
  | b :: rest => if a.moment < b.moment then a :: b :: rest else b :: a.insert rest

/-- The first runner that handles a type. -/
def select (runners : List Runner) (type : String) : Option Runner :=
  runners.find? (·.handles type)

/-- The fault that keeps a plan from being executed. -/
def planFault? (plan : Plan) : Option PlanFault :=
  let ids := plan.nodes.map (·.id)
  let unknown := plan.nodes.findSome? fun n =>
    (n.dependsOn.find? fun d => !ids.contains d).map (PlanFault.unknownDependency n.id)
  match unknown with
  | some fault => some fault
  | none =>
    let graph := Graph.ofParts ids
      (plan.nodes.flatMap fun n => n.dependsOn.map fun d => (d, n.id))
    if graph.size ≠ plan.nodes.length then some .duplicateIds
    else match graph.checkOrder plan.order with
      | .ok _ => none
      | .error fault => some (.order fault)

/-- The error that keeps a run from being started. -/
def startError? (runners : List Runner) (plan : Plan) : Option PipelineError :=
  match planFault? plan with
  | some fault => some (.plan fault)
  | none => (plan.nodes.find? fun n => (select runners n.type).isNone).map fun n =>
      .noRunner n.id n.type

/-- Executes tasks in order at one moment. -/
def executeAll (host : Host σ) (stopped : Bool) (now : Nat) (tasks : List Task)
    (arrivals : List Arrival) (w : σ) : List Arrival × σ :=
  tasks.foldl (fun (arrivals, w) t =>
    let ((result, delay), w) := host.execute t stopped now w
    (Arrival.insert ⟨now + delay, t.invocation.node, result⟩ arrivals, w)) (arrivals, w)

/-- Running tasks that have not been executed yet. -/
def unexecuted (s : State) (arrivals : List Arrival) : List Task :=
  s.running.filter fun t => !arrivals.any (·.node == t.invocation.node)

/-- Ends a halted run: what still runs is stopped, and of the results that are there by then only
successes are taken in. -/
def finishHalted (host : Host σ) (runId : String) (s : State) (now : Nat)
    (arrivals : List Arrival) (w : σ) : State × σ :=
  if s.running.isEmpty then (s, w)
  else
    let w := host.stop runId w
    let there := arrivals.takeWhile (·.moment ≤ now)
    let (late, w) := executeAll host true now (unexecuted s arrivals) [] w
    ((there ++ late).foldl (fun s a => s.drain a.node a.result) s, w)

/-- Runs until nothing is left to do or the run is halted; each round takes in one result. -/
def rounds (host : Host σ) (limit : Option Nat) (runId : String) :
    Nat → State → Nat → List Arrival → σ → State × σ
  | 0, s, now, arrivals, w => finishHalted host runId s now arrivals w
  | fuel + 1, s, now, arrivals, w =>
    if (host.cancelledAt w).any (· ≤ now) then
      finishHalted host runId (s.haltWith .cancelled) now arrivals w
    else
      let s := s.schedule limit fun type => ((select host.runners type).map (·.name)).getD ""
      if s.running.isEmpty then (s.settle, w)
      else
        let (arrivals, w) := if arrivals.any (·.moment ≤ now) then (arrivals, w)
          else executeAll host false now (unexecuted s arrivals) arrivals w
        match arrivals with
        | [] => (s, w)
        | a :: rest =>
          let next := max now a.moment
          match (host.cancelledAt w).filter (· ≤ next) with
          | some t => finishHalted host runId (s.haltWith .cancelled) (max now t) arrivals w
          | none =>
            let s := s.finish a.node a.result
            if s.halt.isSome then finishHalted host runId s next rest w
            else rounds host limit runId fuel s next rest w

/-- The final state of a run. There are no more rounds than nodes, one last round apart. -/
def finalState (host : Host σ) (settings : EngineSettings) (plan : Plan) (runId : String) (w : σ) :
    State × σ :=
  rounds host settings.limit runId (plan.order.length + 1) (.initial plan) 0 [] w

/-- Runs a plan, or says why it cannot be started. -/
def run (host : Host σ) (settings : EngineSettings) (plan : Plan) (runId : String) (w : σ) :
    Except PipelineError State × σ :=
  match startError? host.runners plan with
  | some e => (.error e, w)
  | none =>
    let (s, w) := finalState host settings plan runId w
    (.ok s, w)

end Flowline.Engine

/-! Executors of a plan: what is left of a run are its status, its events and what a store keeps of
its results. -/
namespace Flowline

structure Executor (κ : Type) where
  plan : Plan
  settings : EngineSettings := {}
  calls : RunStore κ
  store : κ
  /-- The status of the latest run. -/
  status : RunStatus := .pending
  /-- All events, each with the id of its run. -/
  emitted : List (String × Event) := []

namespace Executor

/-- A run has come to its end: its results are kept, and its end is made known. -/
def conclude (x : Executor κ) (runId : String) (s : Engine.State) : Executor κ :=
  { x with
    status := s.status
    store := x.calls.keep s.recorded (s.outcome runId x.plan.id) x.store
    emitted := x.emitted ++ s.allEvents.map (runId, ·) }

/-- The result of a run of the plan, or why it cannot be started. -/
def run (x : Executor κ) (host : Engine.Host σ) (runId : String) (w : σ) :
    Except PipelineError RunResult × Executor κ × σ :=
  match Engine.run host x.settings x.plan runId w with
  | (.error e, w) => (.error e, x, w)
  | (.ok s, w) => (.ok (s.outcome runId x.plan.id), x.conclude runId s, w)

end Executor

end Flowline
