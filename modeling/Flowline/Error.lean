import Flowline.Node.Error
import Flowline.Plan.Compile

/-! Errors of a sandbox unit, and those that keep a run from being made or finished. -/
namespace Flowline

/-- What keeps a unit from being run. What its code does wrong is a result, not an error. -/
inductive SandboxError where
  | launchFailed (message : String)
  | io (message : String)
  | serialization (message : String)
  | unavailable (message : String)
  | cancelled
deriving DecidableEq, Inhabited

def SandboxError.message : SandboxError → String
  | launchFailed m => s!"Failed to launch sandbox unit: {m}"
  | io m => s!"Sandbox I/O error: {m}"
  | serialization m => s!"Serialization error: {m}"
  | unavailable m => s!"Sandbox unavailable: {m}"
  | cancelled => "Sandbox run cancelled"

inductive PipelineError where
  | unreadable (message : String)
  | compilation (errors : Nat)
  | plan (fault : PlanFault)
  | noRunner (node type : String)
  | datasetNotFound (name : String)
  | config (message : String)
  | store (message : String)
  | io (message : String)
  | node (error : NodeError)
  | sandbox (error : SandboxError)
  | internal (message : String)
deriving DecidableEq

namespace PipelineError

def message : PipelineError → String
  | .unreadable m => s!"Parse error: {m}"
  | .compilation errors => s!"Compilation failed with {errors} error(s)"
  | .plan fault => Plan.invalidPlan ++ fault.message
  | .noRunner id type => s!"No runner for node type: {type} (node {id})"
  | .datasetNotFound name => s!"Dataset not found: {name}"
  | .config m => s!"Config error: {m}"
  | .store m => s!"Run store error: {m}"
  | .io m => s!"IO error: {m}"
  | .node e => s!"Node error: {e.message}"
  | .sandbox e => s!"Sandbox error: {e.message}"
  | .internal m => s!"Internal error: {m}"

/-- The engine was set up wrong; the data of the pipeline are not to blame. -/
def isConfiguration : PipelineError → Bool
  | noRunner .. | plan _ => true
  | _ => false

end PipelineError
end Flowline
