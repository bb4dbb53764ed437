import Flowline.Sandbox.Language
import Flowline.Sandbox.Policy

/-! What a sandbox unit is given to read. -/
namespace Flowline

/-- The part of a run that sandboxed code may see. -/
structure UnitContext where
  runId : String
  pipelineId : String
  nodeId : String
  language : Language
  /-- Readable paths by dataset name, in ascending order of name. -/
  datasets : List (String × String) := []
  /-- The script to run. -/
  entry : Option String := none
  /-- Code to run instead of a script. -/
  code : Option String := none
  /-- The script is checked like code. -/
  scanEntry : Bool := false
  security : Policy := {}
deriving DecidableEq, Inhabited

/-- Fields in ascending order of key; a repeated key takes its last value. -/
def sortedByKey (fs : List (String × α)) : List (String × α) :=
  fs.foldl (fun acc (k, a) =>
    acc.takeWhile (·.1 < k) ++ (k, a) :: (acc.dropWhile (·.1 < k)).dropWhile (·.1 == k)) []

namespace UnitContext

def toValue (c : UnitContext) : Value :=
  .map [("runId", .str c.runId), ("pipelineId", .str c.pipelineId), ("nodeId", .str c.nodeId),
    ("language", c.language.toValue),
    ("datasets", .map (c.datasets.map fun (n, p) => (n, .str p))),
    ("entry", .ofStr? c.entry), ("code", .ofStr? c.code), ("scanEntry", .bool c.scanEntry),
    ("security", c.security.toValue)]

def decode : Decoder UnitContext := fun v => do
  match ← slots [["runId"], ["pipelineId"], ["nodeId"], ["language"], ["datasets"], ["entry"],
      ["code"], ["scanEntry"], ["security"]] v with
  | [runId, pipelineId, nodeId, language, datasets, entry, code, scanEntry, security] =>
    return {
      runId := ← runId.required Decode.text
      pipelineId := ← pipelineId.required Decode.text
      nodeId := ← nodeId.required Decode.text
      language := ← language.required Language.decode
      datasets := sortedByKey (← datasets.withDefault [] (Decode.mapOf Decode.text))
      entry := ← entry.optionalDefault Decode.text
      code := ← code.optionalDefault Decode.text
      scanEntry := ← scanEntry.withDefault false Decode.bool
      security := ← security.withDefault {} Policy.decode }
  | _ => none

end UnitContext

structure UnitInput where
  type : String
  params : Fields
  /-- Outputs of the dependencies by their ids. -/
  inputs : Fields
  context : UnitContext
deriving Inhabited

namespace UnitInput

def toValue (i : UnitInput) : Value :=
  .map [("nodeType", .str i.type), ("params", .map i.params), ("inputs", .map i.inputs),
    ("context", i.context.toValue)]

def decode : Decoder UnitInput := fun v => do
  match ← slots [["nodeType"], ["params"], ["inputs"], ["context"]] v with
  | [type, params, inputs, context] =>
    return ⟨← type.required Decode.text, ← params.required Decode.fields,
      ← inputs.required Decode.fields, ← context.required UnitContext.decode⟩
  | _ => none

end UnitInput
end Flowline
