import Flowline.Catalog.Shape
import Flowline.Json.Printer
import Flowline.Json.Reader
import Flowline.Time.Moment

/-! Execution plans: what the engine needs to run a pipeline, and their written form. -/
namespace Flowline

structure PlanNode where
  id : String
  type : String
  backend : Backend
  params : Fields
  input : InputSchema
  output : Schema
  /-- The position of the declaration. -/
  index : Nat
  dependsOn : List String
  description : String
deriving Inhabited

/-- A dependency together with the shape of the data that it carries. -/
structure PlanEdge where
  source : String
  target : String
  kind : String
  shape : Shape
deriving DecidableEq, Inhabited

structure Plan where
  id : String
  name : Option String
  description : Option String
  version : String
  compiledAt : Moment
  nodeCount : Nat
  isCyclic : Bool
  sourceHash : String
  nodes : List PlanNode
  edges : List PlanEdge
  order : List String
deriving Inhabited

namespace PlanNode

def toValue (n : PlanNode) : Value :=
  let description := if n.description.isEmpty then none else some (Value.str n.description)
  .map [("id", .str n.id), ("type", .str n.type), ("runtime", n.backend.toValue),
    ("parameters", .map n.params), ("inputSchema", n.input.toValue),
    ("outputSchema", n.output.toValue),
    ("metadata", .map ([("declarationIndex", .ofNat n.index), ("dependsOn", .strs n.dependsOn)]
      ++ field? "description" description))]

/-- Position, dependencies and description. -/
def decodeMetadata : Decoder (Nat × List String × String) := fun v => do
  match ← slots [["declarationIndex"], ["dependsOn"], ["description"]] v with
  | [index, dependsOn, description] =>
    return (← index.required Decode.word64, ← dependsOn.required (Decode.list Decode.text),
      ← description.withDefault "" Decode.text)
  | _ => none

def decode : Decoder PlanNode := fun v => do
  match ← slots [["id"], ["type"], ["runtime"], ["parameters"], ["inputSchema"], ["outputSchema"],
      ["metadata"]] v with
  | [id, type, runtime, params, input, output, metadata] =>
    let (index, dependsOn, description) ← metadata.required decodeMetadata
    return {
      id := ← id.required Decode.text
      type := ← type.required Decode.text
      backend := ← runtime.required Backend.decode
      params := ← params.required Decode.fields
      input := ← input.required InputSchema.decode
      output := ← output.required Schema.decode
      index, dependsOn, description }
  | _ => none

end PlanNode

namespace PlanEdge

def toValue (e : PlanEdge) : Value :=
  .map [("from", .str e.source), ("to", .str e.target), ("type", .str e.kind),
    ("dataType", e.shape.toValue)]

def decode : Decoder PlanEdge := fun v => do
  match ← slots [["from"], ["to"], ["type"], ["dataType"]] v with
  | [source, target, kind, shape] =>
    return ⟨← source.required Decode.text, ← target.required Decode.text,
      ← kind.required Decode.text, ← shape.required Shape.decode⟩
  | _ => none

end PlanEdge

namespace Plan

def toValue (p : Plan) : Value :=
  .map ([("id", .str p.id)] ++ field? "name" (p.name.map .str)
    ++ field? "description" (p.description.map .str)
    ++ [("version", .str p.version),
      ("metadata", .map [("compiledAt", p.compiledAt.toValue), ("totalNodes", .ofNat p.nodeCount),
        ("hasCircularDependencies", .bool p.isCyclic), ("sourceHash", .str p.sourceHash)]),
      ("nodes", .list (p.nodes.map PlanNode.toValue)),
      ("dependencies", .list (p.edges.map PlanEdge.toValue)),
      ("executionOrder", .strs p.order)])

def decodeMetadata : Decoder (Moment × Nat × Bool × String) := fun v => do
  match ← slots [["compiledAt"], ["totalNodes"], ["hasCircularDependencies"], ["sourceHash"]] v with
  | [compiledAt, nodes, cyclic, hash] =>
    return (← compiledAt.required Moment.decode, ← nodes.required Decode.word64,
      ← cyclic.required Decode.bool, ← hash.withDefault "" Decode.text)
  | _ => none

def decode : Decoder Plan := fun v => do
  match ← slots [["id"], ["name"], ["description"], ["version"], ["metadata"], ["nodes"],
      ["dependencies"], ["executionOrder"]] v with
  | [id, name, description, version, metadata, nodes, edges, order] =>
    let (compiledAt, nodeCount, isCyclic, sourceHash) ← metadata.required decodeMetadata
    return {
      id := ← id.required Decode.text
      name := ← name.optionalDefault Decode.text
      description := ← description.optionalDefault Decode.text
      version := ← version.required Decode.text
      compiledAt, nodeCount, isCyclic, sourceHash
      nodes := ← nodes.required (Decode.list PlanNode.decode)
      edges := ← edges.required (Decode.list PlanEdge.decode)
      order := ← order.required (Decode.list Decode.text) }
  | _ => none

def node? (p : Plan) (id : String) : Option PlanNode := p.nodes.find? (·.id == id)

/-- Dependencies in order of declaration. -/
def dependenciesOf (p : Plan) (id : String) : List String :=
  ((p.node? id).map (·.dependsOn)).getD []

end Plan

end Flowline

/-! Plans as indented JSON text. -/
namespace Flowline.Plan

def render (p : Plan) : String := Json.pretty p.toValue

def parse? (text : String) : Option Plan := (Json.readRecord text).bind decode

end Flowline.Plan
