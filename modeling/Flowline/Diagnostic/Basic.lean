import Flowline.Data.Record

/-! Diagnostics: what validation has to say about a pipeline, and reports of them. -/
namespace Flowline

inductive Severity where
  | error
  | warning
deriving DecidableEq, Inhabited

/-- The concern that a diagnostic belongs to. -/
inductive Concern where
  | syntactic
  | semantic
  | parameter
  | dependency
  | schema
  | typeCompatibility
deriving DecidableEq, Inhabited

namespace Severity

def name : Severity → String
  | error => "error"
  | warning => "warning"

def decode : Decoder Severity := fun v =>
  (Decode.variant v).bind fun s => [error, warning].find? (·.name == s)

end Severity

namespace Concern

def name : Concern → String
  | syntactic => "syntax"
  | semantic => "semantic"
  | parameter => "parameter"
  | dependency => "dependency"
  | schema => "schema"
  | typeCompatibility => "type_compatibility"

def all : List Concern := [syntactic, semantic, parameter, dependency, schema, typeCompatibility]

def decode : Decoder Concern := fun v => (Decode.variant v).bind fun s => all.find? (·.name == s)

end Concern

/-- One finding, with the places it is about. -/
structure Diagnostic where
  concern : Concern
  severity : Severity
  code : String
  message : String
  node : Option String := none
  field : Option String := none
  location : Option String := none
deriving DecidableEq, Inhabited

namespace Diagnostic

def atNode (d : Diagnostic) (id : String) : Diagnostic := { d with node := some id }
def atField (d : Diagnostic) (path : String) : Diagnostic := { d with field := some path }
def atLocation (d : Diagnostic) (place : String) : Diagnostic := { d with location := some place }

def isError (d : Diagnostic) : Bool := d.severity == .error

/-- The diagnostic on one line. -/
def text (d : Diagnostic) : String :=
  let node := match d.node with
    | some id => s!" (node {id})"
    | none => ""
  let field := match d.field with
    | some path => s!" at {path}"
    | none => ""
  s!"[{d.code}] {d.message}{node}{field}"

def toValue (d : Diagnostic) : Value :=
  .map ([("kind", .str d.concern.name), ("severity", .str d.severity.name), ("code", .str d.code),
    ("message", .str d.message)] ++ field? "nodeId" (d.node.map .str)
    ++ field? "fieldPath" (d.field.map .str) ++ field? "sourceLocation" (d.location.map .str))

def decode : Decoder Diagnostic := fun v => do
  match ← slots [["kind"], ["severity"], ["code"], ["message"], ["nodeId"], ["fieldPath"],
      ["sourceLocation"]] v with
  | [kind, severity, code, message, node, field, location] =>
    return {
      concern := ← kind.required Concern.decode
      severity := ← severity.required Severity.decode
      code := ← code.required Decode.text
      message := ← message.required Decode.text
      node := ← node.optionalDefault Decode.text
      field := ← field.optionalDefault Decode.text
      location := ← location.optionalDefault Decode.text }
  | _ => none

end Diagnostic

/-- The diagnostics of one validation, in the order they were found. -/
structure Report where
  diagnostics : List Diagnostic
deriving DecidableEq, Inhabited

namespace Report

def errors (r : Report) : List Diagnostic := r.diagnostics.filter (·.isError)
def warnings (r : Report) : List Diagnostic := r.diagnostics.filter fun d => !d.isError
def isValid (r : Report) : Bool := r.diagnostics.all fun d => !d.isError
def extend (r : Report) (more : List Diagnostic) : Report := ⟨r.diagnostics ++ more⟩

def toValue (r : Report) : Value :=
  .map [("isValid", .bool r.isValid), ("diagnostics", .list (r.diagnostics.map Diagnostic.toValue))]

end Report
end Flowline
