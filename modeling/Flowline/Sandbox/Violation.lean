import Flowline.Data.Record

/-! Violations that sandboxed code commits. -/
namespace Flowline

inductive ViolationKind where
  | memoryLimit
  | timeout
  | restrictedModule
  | dynamicCode
  | unauthorizedModule
  | runtimeError
deriving DecidableEq, Inhabited

namespace ViolationKind

def name : ViolationKind → String
  | memoryLimit => "MEMORY_LIMIT"
  | timeout => "TIMEOUT"
  | restrictedModule => "RESTRICTED_MODULE"
  | dynamicCode => "DYNAMIC_CODE"
  | unauthorizedModule => "UNAUTHORIZED_MODULE"
  | runtimeError => "RUNTIME_ERROR"

def all : List ViolationKind :=
  [memoryLimit, timeout, restrictedModule, dynamicCode, unauthorizedModule, runtimeError]

def ofName? (s : String) : Option ViolationKind := all.find? (·.name == s)

/-- Anything but an ordinary fault of the code. -/
def isAbuse (k : ViolationKind) : Bool := k != runtimeError

def decode : Decoder ViolationKind := fun v => (Decode.variant v).bind ofName?

end ViolationKind

structure Violation where
  kind : ViolationKind
  message : String
  details : Value := .null
deriving Inhabited

namespace Violation

def text (v : Violation) : String := s!"{v.kind.name}: {v.message}"

def toValue (v : Violation) : Value :=
  .map ([("kind", .str v.kind.name), ("message", .str v.message)]
    ++ if v.details.isNull then [] else [("details", v.details)])

def decode : Decoder Violation := fun v => do
  match ← slots [["kind"], ["message"], ["details"]] v with
  | [kind, message, details] =>
    return ⟨← kind.required ViolationKind.decode, ← message.required Decode.text,
      ← details.withDefault .null Decode.any⟩
  | _ => none

end Violation
end Flowline
