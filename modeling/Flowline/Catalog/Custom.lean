import Flowline.Catalog.Contract
import Flowline.Sandbox.Language
import Flowline.Json.Reader
import Flowline.Text.Blank

/-! Node types that users contribute: manifests and the registry of what was found. -/
namespace Flowline

/-- Declared inputs of a custom type. -/
structure CustomInput where
  min : Nat
  max : Option Nat
  accepted : List Shape
  requiredColumns : List String
deriving DecidableEq

def CustomInput.toValue (i : CustomInput) : Value :=
  .map [("min", .ofNat i.min), ("max", .ofOption (i.max.map .ofNat)),
    ("accepted", .list (i.accepted.map Shape.toValue)), ("requiredColumns", .strs i.requiredColumns)]

def CustomInput.decode : Decoder CustomInput := fun v => do
  match ← slots [["min"], ["max"], ["accepted"], ["requiredColumns"]] v with
  | [min, max, accepted, columns] =>
    return ⟨← min.withDefault 0 Decode.word64, ← max.optionalDefault Decode.word64,
      ← accepted.withDefault [] (Decode.list Shape.decode),
      ← columns.withDefault [] (Decode.list Decode.text)⟩
  | _ => none

/-- A manifest, and the directory it was found in. -/
structure CustomNode where
  type : String
  language : Language
  /-- The script, relative to the directory. -/
  entry : String
  description : String
  required : List ParamSpec
  optional : List ParamSpec
  input : Option CustomInput
  output : Option Schema
  directory : String := ""
deriving DecidableEq

namespace CustomNode

/-- The definition as a manifest. -/
def toValue (d : CustomNode) : Value :=
  .map [("type", .str d.type), ("runtime", d.language.toValue), ("entry", .str d.entry),
    ("description", .str d.description), ("requiredParams", .list (d.required.map ParamSpec.toValue)),
    ("optionalParams", .list (d.optional.map ParamSpec.toValue)),
    ("input", .ofOption (d.input.map CustomInput.toValue)),
    ("output", .ofOption (d.output.map Schema.toValue))]

def decode : Decoder CustomNode := fun v => do
  match ← slots [["type"], ["runtime"], ["entry"], ["description"], ["requiredParams"],
      ["optionalParams"], ["input"], ["output"]] v with
  | [type, runtime, entry, description, required, optional, input, output] =>
    return {
      type := ← type.required Decode.text
      language := ← runtime.withDefault .python Language.decode
      entry := ← entry.required Decode.text
      description := ← description.withDefault "" Decode.text
      required := ← required.withDefault [] (Decode.list ParamSpec.decode)
      optional := ← optional.withDefault [] (Decode.list ParamSpec.decode)
      input := ← input.optionalDefault CustomInput.decode
      output := ← output.optionalDefault Schema.decode }
  | _ => none

/-- The definition in a manifest: type and entry are not blank, and the entry stays inside its
directory. -/
def ofManifest? (text : String) : Option CustomNode := do
  let d ← (Json.readRecord text).bind decode
  if Text.allBlank d.type || Text.allBlank d.entry then none
  else if d.entry.startsWith "/" || Text.hasInfix d.entry ".." then none
  else some d

def inputContract : Option CustomInput → InputContract
  | none => .source
  | some i => ⟨⟨i.min, i.max⟩, if i.accepted.isEmpty then [.any] else i.accepted,
      fun _ => i.requiredColumns⟩

def contract (d : CustomNode) : Contract where
  type := d.type
  backend := .custom
  description := d.description
  required := d.required
  optional := d.optional
  input := inputContract d.input
  output := fun _ => d.output.getD (.unknown .any)

end CustomNode

/-- Custom types by name; a later definition replaces an earlier one. -/
structure Registry where
  nodes : List CustomNode := []
deriving Inhabited

namespace Registry

def register (r : Registry) (d : CustomNode) : Registry :=
  ⟨r.nodes.filter (·.type ≠ d.type) ++ [d]⟩

def get? (r : Registry) (type : String) : Option CustomNode := r.nodes.find? (·.type == type)

def contains (r : Registry) (type : String) : Bool := (r.get? type).isSome

def size (r : Registry) : Nat := r.nodes.length

/-- Definitions in ascending order of type. -/
def definitions (r : Registry) : List CustomNode := r.nodes.mergeSort fun a b => a.type ≤ b.type

/-- Adds the definition of every directory with a readable manifest; counts them. -/
def discover (r : Registry) (manifests : List (String × String)) : Registry × Nat :=
  manifests.foldl (fun (r, n) (directory, text) =>
    match CustomNode.ofManifest? text with
    | some d => (r.register { d with directory }, n + 1)
    | none => (r, n)) (r, 0)

end Registry
end Flowline
