import Flowline.Catalog.Basic
import Flowline.Node.Basic
import Flowline.Run.Result
import Flowline.Sandbox.Unit

/-! Nodes executed in sandbox units: those of the script languages, and custom ones. -/
namespace Flowline.Node

/-- The parameter that carries code. -/
def codeParam : String := "code"

/-- Inline code where the type takes it, the script of the type otherwise. -/
def entryOf (catalog : Catalog) (l : Language) (i : Invocation) : EntryPoint :=
  let takesCode := (catalog.get? i.type).any fun c => (c.param? codeParam).isSome
  match i.text? codeParam with
  | some code => if takesCode then .code code else script
  | none => script
where
  script : EntryPoint := .script s!"{i.type}.{l.extension}"

/-- The paths of the datasets that a node names, or the one that is not bound. -/
def datasetsOf (c : Context) (i : Invocation) : Except String (List (String × String)) :=
  match Context.datasetOf? i.params with
  | none => .ok []
  | some name => match c.dataset? name with
    | some path => .ok [(name, path)]
    | none => .error name

def unbound (name : String) : String := s!"dataset '{name}' is not bound for this run"

/-- Where nodes are executed in units. -/
structure UnitStage where
  host : UnitHost
  context : Context
  /-- The run has been stopped. -/
  stopped : Bool := false

/-- The result of a node from the end of its unit. The kind of a violation stands in the message. -/
def resultOf (node : String) (elapsed : Nat) : Except SandboxError Output → NodeResult
  | .error .cancelled => .fail node NodeError.cancelled.message
  | .error e => .fail node e.message
  | .ok (.success result usage logs) =>
    { node, success := true, output := result, logs, elapsed, usage }
  | .ok (.failure error violation logs) =>
    let error := match violation with
      | some v => if Text.hasInfix error v.kind.name then error else s!"{v.kind.name}: {error}"
      | none => error
    { node, success := false, error := some error, violation, logs, elapsed }

/-- Executes a node in a unit; what is refused before takes no time. -/
def executeUnit (s : UnitStage) (i : Invocation) (l : Language) (entry : EntryPoint)
    (scanEntry : Bool) : NodeResult × Nat :=
  match datasetsOf s.context i with
  | .error name => (.fail i.node (unbound name), 0)
  | .ok datasets =>
    let (outcome, elapsed) := s.host.run s.stopped s.context {
      node := i.node, type := i.type, language := l, entry, scanEntry, datasets
      params := i.params, inputs := i.inputFields }
    (resultOf i.node elapsed outcome, elapsed)

/-- Executes a node of a script language. -/
def executeScript (s : UnitStage) (catalog : Catalog) (l : Language) (i : Invocation) :
    NodeResult × Nat :=
  executeUnit s i l (entryOf catalog l i) false

/-- Executes a custom node; its entry file is looked for each time, and checked. -/
def executeCustom (s : UnitStage) (registry : Registry) (files : Entry) (i : Invocation) :
    NodeResult × Nat :=
  match registry.get? i.type with
  | none => (.fail i.node s!"custom node type '{i.type}' is not available", 0)
  | some d =>
    let path := Path.join d.directory d.entry
    if files.hasFile path then executeUnit s i d.language (.file d.directory d.entry) true
    else (.fail i.node s!"entry point {path} for custom node type '{d.type}' not found", 0)

end Flowline.Node
