import Flowline.Node.Basic
import Flowline.Plan.Basic

/-! The events of a run, its state and its steps: starting nodes, taking in a result, halting. -/
namespace Flowline

/-- What is made known of a run. -/
inductive Event where
  | runStarted (pipelineId : String)
  | nodeStarted (node type runner : String)
  | nodeSucceeded (node : String)
  | nodeFailed (node error : String)
  | runFinished (status : RunStatus)
deriving DecidableEq

/-- The event without times. -/
def Event.toValue (runId : String) (e : Event) : Value :=
  let (name, fields) := match e with
    | runStarted p => ("run_started", [("pipeline_id", .str p)])
    | nodeStarted n t r => ("node_started",
        [("node_id", .str n), ("node_type", .str t), ("runner", .str r)])
    | nodeSucceeded n => ("node_succeeded", [("node_id", .str n)])
    | nodeFailed n error => ("node_failed", [("node_id", .str n), ("error", .str error)])
    | runFinished s => ("run_finished", [("status", s.toValue)])
  .map (("event", .str name) :: ("run_id", .str runId) :: fields)

namespace Engine

/-- Why a run ends before all its nodes have. -/
inductive Halt where
  | cancelled
  | nodeFailed (node error : String)
  | stalled (waiting : List String)
  | deadline (seconds : Nat)
  | crashed (message : String)
deriving DecidableEq

namespace Halt

def status : Halt → RunStatus
  | cancelled => .cancelled
  | _ => .failed

def message : Halt → String
  | cancelled => "run cancelled"
  | nodeFailed node error => s!"node '{node}' failed: {error}"
  | stalled waiting =>
    let ids := ", ".intercalate waiting
    s!"no runnable nodes left; waiting on [{ids}]"
  | deadline seconds => s!"run exceeded max_execution_time_secs ({seconds}s)"
  | crashed message => s!"node task join error: {message}"

end Halt

/-- A node is executed by the runner that was assigned to it. -/
structure Task where
  runner : String
  invocation : Invocation
deriving Inhabited

structure State where
  /-- Nodes not started yet, in execution order. -/
  pending : List PlanNode
  /-- Tasks started and not ended, in order of their start. -/
  running : List Task := []
  /-- The first result under each node id. -/
  results : List (String × NodeResult) := []
  halt : Option Halt := none
  /-- All tasks that were ever started, in order. -/
  started : List Task := []
  /-- All results that were taken in, in order. -/
  recorded : List NodeResult := []
  events : List Event := []
deriving Inhabited

namespace State

/-- The state in which the nodes of a plan wait in its order. -/
def initial (plan : Plan) : State :=
  { pending := plan.order.filterMap plan.node?, events := [.runStarted plan.id] }

def result? (s : State) (id : String) : Option NodeResult := s.results.lookup id

/-- All dependencies have succeeded. -/
def isReady (s : State) (n : PlanNode) : Bool :=
  n.dependsOn.all fun d => (s.result? d).any (·.success)

/-- A node with the outputs of its dependencies, each dependency once. -/
def invocation (s : State) (n : PlanNode) : Invocation :=
  { node := n.id, type := n.type, backend := n.backend, params := n.params
    inputs := (distinct n.dependsOn).filterMap fun d => (s.result? d).map fun r => (d, r.output) }

def start (s : State) (runner : String) (n : PlanNode) : State :=
  let task := ⟨runner, s.invocation n⟩
  { s with running := s.running ++ [task], started := s.started ++ [task]
           events := s.events ++ [.nodeStarted n.id n.type runner] }

/-- More tasks may be started. -/
def hasRoom (s : State) (limit : Option Nat) : Bool := limit.all (s.running.length < ·)

/-- Goes once through the waiting nodes and starts those that are ready, as long as there is room. -/
def startReady (limit : Option Nat) (runnerOf : String → String) (s : State) :
    List PlanNode → State
  | [] => s
  | n :: rest =>
    if s.hasRoom limit && s.isReady n then
      startReady limit runnerOf (s.start (runnerOf n.type) n) rest
    else startReady limit runnerOf { s with pending := s.pending ++ [n] } rest

/-- One scheduling pass. -/
def schedule (limit : Option Nat) (runnerOf : String → String) (s : State) : State :=
  startReady limit runnerOf { s with pending := [] } s.pending

/-- Takes in a result: the first one under an id stays. -/
def record (s : State) (r : NodeResult) : State :=
  { s with
    recorded := s.recorded ++ [r]
    results := if (s.result? r.node).isSome then s.results else s.results ++ [(r.node, r)]
    events := s.events ++ [if r.success then .nodeSucceeded r.node
      else .nodeFailed r.node r.errorMessage] }

def haltWith (s : State) (h : Halt) : State := { s with halt := some h }

/-- Ends a running task with its result; a failure halts the run. -/
def finish (s : State) (id : String) (r : NodeResult) : State :=
  let s := { s with running := s.running.eraseP (·.invocation.node == id) }.record r
  if r.success then s else s.haltWith (.nodeFailed id r.errorMessage)

/-- Ends a running task of a halted run; only a success is taken in. -/
def drain (s : State) (id : String) (r : NodeResult) : State :=
  let s := { s with running := s.running.eraseP (·.invocation.node == id) }
  if r.success then s.record r else s

/-- Nothing runs and no node can be started: the run is complete or stalled. -/
def settle (s : State) : State :=
  if s.pending.isEmpty then s else s.haltWith (.stalled (s.pending.map (·.id)))

def status (s : State) : RunStatus := (s.halt.map Halt.status).getD .completed

/-- The final result of a run that has come to its end. -/
def outcome (s : State) (runId pipelineId : String) : RunResult :=
  { runId, pipelineId, status := s.status, results := sortedByKey s.results
    error := s.halt.map Halt.message }

/-- The events of a run that has come to its end. -/
def allEvents (s : State) : List Event := s.events ++ [.runFinished s.status]

end State
end Engine
end Flowline
