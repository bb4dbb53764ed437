import Flowline.Error
import Flowline.Run.Result

/-! Stores of node results and of the final results of runs. -/
namespace Flowline

/-- What a store with states of a type is asked to do. -/
structure RunStore (κ : Type) where
  recordNode : String → NodeResult → κ → Except PipelineError κ
  recordRun : RunResult → κ → Except PipelineError κ
  nodeResults : String → κ → Except PipelineError (List NodeResult)
  loadRun : String → κ → Except PipelineError (Option RunResult)

/-- Keeps all results of a run. What cannot be kept is left out. -/
def RunStore.keep (calls : RunStore κ) (results : List NodeResult) (outcome : RunResult) (k : κ) :
    κ :=
  let k := results.foldl (fun k r => (calls.recordNode outcome.runId r k).toOption.getD k) k
  (calls.recordRun outcome k).toOption.getD k

/-- A store in memory: the latest entries come first. -/
structure MemoryStore where
  nodes : List (String × NodeResult) := []
  runs : List (String × RunResult) := []
deriving Inhabited

namespace MemoryStore

def recordNode (s : MemoryStore) (runId : String) (r : NodeResult) : MemoryStore :=
  { s with nodes := (runId, r) :: s.nodes }

def recordRun (s : MemoryStore) (r : RunResult) : MemoryStore :=
  { s with runs := (r.runId, r) :: s.runs }

/-- The node results of a run in the order in which they were recorded. -/
def nodeResults (s : MemoryStore) (runId : String) : List NodeResult :=
  (s.nodes.reverse.filter (·.1 == runId)).map (·.2)

/-- The result that was recorded last. -/
def loadRun (s : MemoryStore) (runId : String) : Option RunResult := s.runs.lookup runId

def calls : RunStore MemoryStore where
  recordNode runId r s := .ok (s.recordNode runId r)
  recordRun r s := .ok (s.recordRun r)
  nodeResults runId s := .ok (s.nodeResults runId)
  loadRun runId s := .ok (s.loadRun runId)

end MemoryStore
end Flowline
