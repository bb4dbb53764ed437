import Flowline.Files.Tree
import Flowline.Run.Result
import Flowline.Sandbox.Language
import Flowline.Sandbox.Settings
import Flowline.Toml.Reader

/-! The settings of a pipeline runtime, read from a TOML document. -/
namespace Flowline

structure PathSettings where
  /-- The scripts of the node types. -/
  nodes : String := "nodes"
  /-- A folder with a manifest for each custom node type in a folder of its own. -/
  customNodes : Option String := none
  datasets : String := "data"
  /-- Where results are kept; without it they are kept in memory. -/
  runs : Option String := none
deriving Inhabited

namespace PathSettings

def toValue (p : PathSettings) : Value :=
  .map [("nodes_dir", .str p.nodes), ("custom_nodes_dir", .ofStr? p.customNodes),
    ("datasets_dir", .str p.datasets), ("runs_dir", .ofStr? p.runs)]

def decode : Decoder PathSettings := fun v => do
  match ← slots [["nodes_dir"], ["custom_nodes_dir"], ["datasets_dir"], ["runs_dir"]] v with
  | [nodes, customNodes, datasets, runs] =>
    return ⟨← nodes.withDefault "nodes" Decode.text, ← customNodes.optionalDefault Decode.text,
      ← datasets.withDefault "data" Decode.text, ← runs.optionalDefault Decode.text⟩
  | _ => none

end PathSettings

structure Config where
  engine : EngineSettings := {}
  sandbox : SandboxSettings := {}
  security : Policy := {}
  paths : PathSettings := {}
  interpreters : Interpreters := {}
deriving Inhabited

namespace Config

def toValue (c : Config) : Value :=
  .map [("engine", c.engine.toValue), ("sandbox", c.sandbox.toValue),
    ("security", c.security.toValue), ("paths", c.paths.toValue),
    ("interpreters", c.interpreters.toValue)]

def decode : Decoder Config := fun v => do
  match ← slots [["engine"], ["sandbox"], ["security"], ["paths"], ["interpreters"]] v with
  | [engine, sandbox, security, paths, interpreters] =>
    return {
      engine := ← engine.withDefault {} EngineSettings.decode
      sandbox := ← sandbox.withDefault {} SandboxSettings.decode
      security := ← security.withDefault {} Policy.decode
      paths := ← paths.withDefault {} PathSettings.decode
      interpreters := ← interpreters.withDefault {} Interpreters.decode }
  | _ => none

mutual

/-- A setting as a value: floats stay as they are, and no setting is a moment. -/
def setting : Toml.Datum → Value
  | .str s => .str s
  | .int n => .int n
  | .float x => .float x
  | .bool b => .bool b
  | .moment t => .map [("moment", .str t)]
  | .list items => .list (settingItems items)
  | .table es => .map (settingFields es)
  | .placed _ d => setting d

def settingItems : List Toml.Datum → List Value
  | [] => []
  | d :: rest => setting d :: settingItems rest

def settingFields : List (String × Toml.Datum) → Fields
  | [] => []
  | (k, d) :: rest => (k, setting d) :: settingFields rest

end

/-- The settings of a text, or the place of its first fault. -/
def parse (source : String) : Except Toml.Place Config := do
  let d ← Toml.read source
  match decode (setting d) with
  | some c => return c
  | none =>
    let fits := fun d => (decode (setting d)).isSome
    throw (.ofLeft source.toList (d.culprit fits source.length))

/-- The environment of a unit. Containers bring the scripts of their own. -/
def environment (c : Config) (root : Entry) : List (String × String) :=
  let nodes := match root.canonical c.paths.nodes with
    | .ok names => Path.ofNames names
    | .error _ => c.paths.nodes
  [("XPIPELINE_PYTHON", c.interpreters.python), ("XPIPELINE_NODE", c.interpreters.javaScript)]
    ++ if c.sandbox.mode = .process then [("XPIPELINE_NODES_DIR", nodes)] else []

end Config
end Flowline
