import Flowline.Catalog.Builtin
import Flowline.Config
import Flowline.Engine.Run
import Flowline.Files.Dataset
import Flowline.Node.Builtin
import Flowline.Node.Sandboxed
import Flowline.Run.FileStore

/-! What a configuration sets up: the catalog with the custom node types, the runners of all types,
and the store. -/
namespace Flowline

def CustomNode.manifestName : String := "node.json"

/-- The manifests in the folders below a folder, each with the path of its folder. -/
def Registry.manifestsBelow (files : Entry) (folder : String) :
    Except FileError (List (String × String)) := do
  match ← files.entry folder with
  | .folder entries => return entries.filterMap fun (name, _) =>
      let path := Path.join folder name
      ((files.read (Path.join path CustomNode.manifestName)).toOption).map (path, ·)
  | _ => .error .notFolder

structure Setup where
  config : Config := {}
  catalog : Catalog := .builtin
  registry : Registry := {}

namespace Setup

/-- The custom node types below a folder of the configuration. -/
def registryOf (c : Config) (files : Entry) : Except PipelineError Registry :=
  match c.paths.customNodes with
  | none => .ok {}
  | some folder => match Registry.manifestsBelow files folder with
    | .ok manifests => .ok (({} : Registry).discover manifests).1
    | .error fault =>
      .error (.config s!"cannot read custom nodes directory {folder}: {fault.message}")

def ofConfig (config : Config) (files : Entry) : Except PipelineError Setup := do
  let registry ← registryOf config files
  return { config, registry, catalog := (Catalog.builtin.registerCustom registry).1 }

/-- A runner for each backend. The first one that handles a type is chosen. -/
def runners (s : Setup) : List Engine.Runner :=
  let of (b : Backend) (type : String) : Bool := s.catalog.backend? type == some b
  [⟨"builtin", Node.isBuiltin⟩, ⟨"python", of .python⟩, ⟨"javascript", of .javaScript⟩,
    ⟨"custom", s.registry.contains⟩]

/-- Executes a task by its runner: the result and the time that it takes. -/
def execute (s : Setup) (files : Entry) (stage : Node.UnitStage) (t : Engine.Task) :
    NodeResult × Nat :=
  let i := t.invocation
  match t.runner with
  | "builtin" => (Node.executeBuiltin stage.stopped i, 0)
  | "python" => Node.executeScript stage s.catalog .python i
  | "javascript" => Node.executeScript stage s.catalog .javaScript i
  | _ => Node.executeCustom stage s.registry files i

/-- The host of a run. Its state is the moment at which the run is cancelled, if it is. -/
def host (s : Setup) (files : Entry) (units : UnitHost) (c : Context) :
    Engine.Host (Option Nat) where
  runners := s.runners
  cancelledAt := id
  execute t stopped _ cancelled := (s.execute files ⟨units, c, stopped⟩ t, cancelled)
  stop _ cancelled := cancelled

/-- Binds the datasets of a plan. -/
def bind (s : Setup) (files : Entry) (plan : Plan) (c : Context) : Except PipelineError Context :=
  c.bindDatasets plan (Dataset.resolve files s.config.paths.datasets)

def store (s : Setup) (files : Entry) : ResultStore := { folder := s.config.paths.runs, files }

def executor (s : Setup) (files : Entry) (plan : Plan) : Executor ResultStore where
  plan
  settings := s.config.engine
  calls := ResultStore.calls
  store := s.store files

/-- Runs a plan to its end. `adapt` may change the host. -/
def run (s : Setup) (files : Entry) (units : UnitHost) (plan : Plan) (c : Context)
    (cancelledAt : Option Nat)
    (adapt : Engine.Host (Option Nat) → Engine.Host (Option Nat) := id) :
    Except PipelineError (RunResult × Executor ResultStore) := do
  let c ← s.bind files plan c
  let host := adapt (s.host files units c)
  let (result, x, _) := (s.executor files plan).run host c.runId cancelledAt
  return (← result, x)

end Setup
end Flowline
