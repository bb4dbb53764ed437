import Flowline.Sandbox.Input
import Flowline.Sandbox.Output

/-! Results of nodes and of runs. -/
namespace Flowline

/-- The outcome of one node. -/
structure NodeResult where
  node : String
  success : Bool
  output : Value := .null
  error : Option String := none
  violation : Option Violation := none
  logs : List String := []
  elapsed : Nat := 0
  usage : Option Usage := none
deriving Inhabited

namespace NodeResult

def succeed (node : String) (output : Value) : NodeResult := { node, success := true, output }

def fail (node error : String) : NodeResult := { node, success := false, error := some error }

def errorMessage (r : NodeResult) : String := r.error.getD "unknown error"

def toValue (r : NodeResult) : Value :=
  .map ([("nodeId", .str r.node), ("success", .bool r.success)]
    ++ (if r.output.isNull then [] else [("output", r.output)])
    ++ field? "error" (r.error.map .str) ++ field? "violation" (r.violation.map Violation.toValue)
    ++ Output.logFields r.logs ++ [("executionTimeMs", .ofNat r.elapsed)]
    ++ field? "resourceStats" (r.usage.map Usage.toValue))

def decode : Decoder NodeResult := fun v => do
  match ← slots [["nodeId"], ["success"], ["output"], ["error"], ["violation"], ["logs"],
      ["executionTimeMs"], ["resourceStats"]] v with
  | [node, success, output, error, violation, logs, elapsed, usage] =>
    return {
      node := ← node.required Decode.text
      success := ← success.required Decode.bool
      output := ← output.withDefault .null Decode.any
      error := ← error.optionalDefault Decode.text
      violation := ← violation.optionalDefault Violation.decode
      logs := ← logs.withDefault [] (Decode.list Decode.text)
      elapsed := ← elapsed.required Decode.word64
      usage := ← usage.optionalDefault Usage.decode }
  | _ => none

end NodeResult

inductive RunStatus where
  | pending
  | running
  | completed
  | failed
  | cancelled
deriving DecidableEq, Inhabited

namespace RunStatus

def name : RunStatus → String
  | pending => "pending"
  | running => "running"
  | completed => "completed"
  | failed => "failed"
  | cancelled => "cancelled"

def all : List RunStatus := [pending, running, completed, failed, cancelled]

def isTerminal : RunStatus → Bool
  | completed | failed | cancelled => true
  | _ => false

def toValue (s : RunStatus) : Value := .str s.name

def decode : Decoder RunStatus := fun v => (Decode.variant v).bind fun s => all.find? (·.name == s)

end RunStatus

/-- The final state of a run. -/
structure RunResult where
  runId : String
  pipelineId : String
  status : RunStatus
  /-- Results of the nodes that ended, in ascending order of id. -/
  results : List (String × NodeResult)
  error : Option String := none
  elapsed : Nat := 0
deriving Inhabited

namespace RunResult

def isSuccess (r : RunResult) : Bool := r.status == .completed

def result? (r : RunResult) (node : String) : Option NodeResult := r.results.lookup node

def toValue (r : RunResult) : Value :=
  .map ([("runId", .str r.runId), ("pipelineId", .str r.pipelineId), ("status", r.status.toValue),
    ("results", .map (r.results.map fun (id, n) => (id, n.toValue)))]
    ++ field? "error" (r.error.map .str) ++ [("totalTimeMs", .ofNat r.elapsed)])

def decode : Decoder RunResult := fun v => do
  match ← slots [["runId"], ["pipelineId"], ["status"], ["results"], ["error"], ["totalTimeMs"]] v
  with
  | [runId, pipelineId, status, results, error, elapsed] =>
    return {
      runId := ← runId.required Decode.text
      pipelineId := ← pipelineId.required Decode.text
      status := ← status.required RunStatus.decode
      results := sortedByKey (← results.required (Decode.mapOf NodeResult.decode))
      error := ← error.optionalDefault Decode.text
      elapsed := ← elapsed.required Decode.word64 }
  | _ => none

end RunResult

/-- Settings of the engine. -/
structure EngineSettings where
  /-- Seconds that a run may take; zero is no limit. -/
  maxSeconds : Nat := 600
  parallel : Bool := true
  /-- Nodes that may run at once; zero is no bound. -/
  maxConcurrency : Nat := 0
deriving DecidableEq, Inhabited

namespace EngineSettings

def toValue (s : EngineSettings) : Value :=
  .map [("max_execution_time_secs", .ofNat s.maxSeconds), ("parallel_enabled", .bool s.parallel),
    ("max_concurrency", .ofNat s.maxConcurrency)]

def decode : Decoder EngineSettings := fun v => do
  match ← slots [["max_execution_time_secs"], ["parallel_enabled"], ["max_concurrency"]] v with
  | [seconds, parallel, concurrency] =>
    return ⟨← seconds.withDefault 600 Decode.word64, ← parallel.withDefault true Decode.bool,
      ← concurrency.withDefault 0 Decode.word64⟩
  | _ => none

/-- Nodes that may run at once, if there is a bound. -/
def limit (s : EngineSettings) : Option Nat :=
  if !s.parallel then some 1 else if s.maxConcurrency = 0 then none else some s.maxConcurrency

end EngineSettings
end Flowline
