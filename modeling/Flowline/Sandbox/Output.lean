import Flowline.Json.Printer
import Flowline.Sandbox.Violation

/-! What sandboxed code leaves behind, classified as success or failure. -/
namespace Flowline

/-- The most that was used while the code ran. -/
structure Usage where
  peakMemory : Nat := 0
  elapsed : Nat := 0
  samples : Nat := 0
deriving DecidableEq, Inhabited

namespace Usage

def toValue (u : Usage) : Value :=
  .map [("peakMemoryBytes", .ofNat u.peakMemory), ("elapsedMs", .ofNat u.elapsed),
    ("samples", .ofNat u.samples)]

def decode : Decoder Usage := fun v => do
  match ← slots [["peakMemoryBytes"], ["elapsedMs"], ["samples"]] v with
  | [memory, elapsed, samples] =>
    return ⟨← memory.required Decode.word64, ← elapsed.required Decode.word64,
      ← samples.withDefault 0 Decode.word64⟩
  | _ => none

end Usage

inductive Output where
  | success (result : Value) (usage : Option Usage) (logs : List String)
  | failure (error : String) (violation : Option Violation) (logs : List String)
deriving Inhabited

namespace Output

def ofViolation (v : Violation) : Output := .failure v.message (some v) []
def ofError (error : String) : Output := .failure error none []

def isSuccess : Output → Bool
  | success .. => true
  | failure .. => false

def violation? : Output → Option Violation
  | success .. => none
  | failure _ v _ => v

/-- Adds log lines at the end. -/
def log (extra : List String) : Output → Output
  | success r u logs => success r u (logs ++ extra)
  | failure e v logs => failure e v (logs ++ extra)

/-- A success takes the measured usage in place of a claimed one. -/
def withUsage (usage : Usage) : Output → Output
  | success r _ logs => success r (some usage) logs
  | failed => failed

/-- A text as it is, anything else as JSON text. -/
def asText : Value → String
  | .str s => s
  | v => Json.compact v

def logsOf : Option Value → List String
  | some (.list entries) => entries.map asText
  | _ => []

def unexplained : String := "guest reported failure without a message"

/-- Without a clear word on success, an error and no result is a failure. -/
def isFailure (fs : Fields) : Bool :=
  match fs.get? "success" with
  | some (.bool ok) => !ok
  | _ => fs.has "error" && !fs.has "result"

def ofFailure (fs : Fields) (logs : List String) : Output :=
  let error := match fs.get? "error" with
    | none | some .null => unexplained
    | some v => asText v
  let details := (fs.get? "details").getD .null
  let kind := ((fs.get? "violationType").bind Value.asStr?).bind ViolationKind.ofName?
  .failure error (kind.map fun k => ⟨k, error, details⟩) logs

/-- The result stands under `result`; without that the whole mapping is the result. -/
def ofSuccess (fs : Fields) (logs : List String) : Output :=
  let usage := (fs.get? "stats").bind Usage.decode
  let fs := fs.remove "stats"
  let result := match fs.get? "result" with
    | some r => r
    | none => .map (fs.remove "success")
  .success result usage logs

/-- Classifies a value: anything but a mapping is a result. -/
def ofValue : Value → Output
  | .map fs =>
    let fs : Fields := fs
    let logs := logsOf (fs.get? "logs")
    let rest := fs.remove "logs"
    if isFailure rest then ofFailure rest logs else ofSuccess rest logs
  | v => .success v none []

def logFields (logs : List String) : Fields := if logs.isEmpty then [] else [("logs", .strs logs)]

def violationFields : Option Violation → Fields
  | none => []
  | some v => ("violationType", .str v.kind.name)
      :: if v.details.isNull then [] else [("details", v.details)]

/-- The written form. -/
def toValue : Output → Value
  | success result usage logs => .map ([("success", .bool true), ("result", result)]
      ++ field? "stats" (usage.map Usage.toValue) ++ logFields logs)
  | failure error violation logs => .map ([("success", .bool false), ("error", .str error)]
      ++ violationFields violation ++ logFields logs)

end Output
end Flowline
