import Flowline.Diagnostic.Basic
import Flowline.Catalog.Shape
import Flowline.Json.Printer

/-! Everything that can be found wrong with a pipeline. A finding has a code, a concern, a severity
and a message; the places it is about are added where it is found. -/
namespace Flowline

/-- The formats a pipeline can be written in. -/
inductive Format where
  | yaml
  | json
  | toml
deriving DecidableEq, Inhabited

def Format.title : Format → String
  | .yaml => "YAML"
  | .json => "JSON"
  | .toml => "TOML"

/-- Fields of a node entry that have a fixed type. -/
inductive EntryField where
  | id
  | type
  | params
deriving DecidableEq

def EntryField.name : EntryField → String
  | .id => "id"
  | .type => "type"
  | .params => "params"

def EntryField.expected : EntryField → String
  | .params => "a mapping"
  | _ => "a string"

inductive Finding where
  | unreadable (format : Format)
  | nodesAbsent
  | nodesKind
  | rootKind (found : String)
  | entryKind (index : Nat) (found : String)
  | fieldAbsent (field : EntryField)
  | fieldKind (field : EntryField) (found : String)
  | typeBlank
  | dependencyKind (found : String)
  | dependenciesKind (found : String)
  | noNodes
  | duplicateId (id : String)
  | invalidId (id : String)
  | unknownType (type : String) (known : List String)
  | repeatedDependency (node target : String)
  | unknownDependency (node target : String)
  | cycle (path : List String)
  | missingParameter (name type node : String)
  | wrongKind (name node : String) (kind : ParamKind) (value : Value)
  | unknownParameter (name type node : String)
  /-- A rule on one parameter is broken. -/
  | badParameter (message : String)
  /-- A rule between parameters is broken. -/
  | conflict (message : String)
  | inputCount (node type : String) (arity : Arity) (found : Nat)
  | sourceWithInputs (node type : String) (dependencies : List String)
  | wrongShape (node : String) (accepted : List Shape) (producer : String) (produced : Shape)
  | missingColumns (node : String) (columns producers : List String)
  | unbuildable (message : String)

namespace Finding

def joined (l : List String) : String := ", ".intercalate l

def message : Finding → String
  | unreadable format => s!"{format.title} parse error"
  | nodesAbsent => "Root mapping must contain a \x60nodes\x60 list"
  | nodesKind => "\x60nodes\x60 must be a list of node entries"
  | rootKind found => s!"Root must be a list of node entries, found {found}"
  | entryKind index found => s!"Node entry {index} must be a mapping, found {found}"
  | fieldAbsent field => s!"Missing required field \x60{field.name}\x60"
  | fieldKind field found => s!"\x60{field.name}\x60 must be {field.expected}, found {found}"
  | typeBlank => "\x60type\x60 must not be empty"
  | dependencyKind found => s!"Dependency entries must be node ids (strings), found {found}"
  | dependenciesKind found => s!"\x60depends_on\x60 must be a list of node ids, found {found}"
  | noNodes => "Pipeline has no nodes"
  | duplicateId id => s!"Duplicate node id: {id}"
  | invalidId id => s!"Invalid node id '{id}': must start with a letter and contain only letters, "
      ++ "digits and underscores"
  | unknownType type known => s!"Unknown node type '{type}'. Known types: {joined known}"
  | repeatedDependency node target => s!"Node '{node}' lists dependency '{target}' more than once"
  | unknownDependency node target => s!"Node '{node}' depends on unknown node '{target}'"
  | cycle path => "Circular dependency detected: " ++ " -> ".intercalate path
  | missingParameter name type node =>
    s!"Missing required parameter '{name}' for {type} node '{node}'"
  | wrongKind name node kind value =>
    s!"Parameter '{name}' of node '{node}' must be {kind.phrase}, found {Json.compact value}"
  | unknownParameter name type node => s!"Unknown parameter '{name}' for {type} node '{node}'"
  | badParameter message => message
  | conflict message => message
  | inputCount node type arity found =>
    s!"Node '{node}' ({type}) expects {arity.phrase} input(s), found {found}"
  | sourceWithInputs node type dependencies =>
    s!"Source node '{node}' ({type}) takes no inputs but depends on: {joined dependencies}"
  | wrongShape node accepted producer produced =>
    let shapes := " or ".intercalate (accepted.map Shape.name)
    s!"Node '{node}' expects {shapes} input, but '{producer}' produces {produced.name}"
  | missingColumns node columns producers =>
    s!"Input of node '{node}' is missing required column(s): {joined columns} "
      ++ s!"(provided by {joined producers})"
  | unbuildable message => message

def code : Finding → String
  | unreadable _ => "E001"
  | nodesAbsent | nodesKind | rootKind _ => "E002"
  | noNodes => "E003"
  | entryKind .. | fieldAbsent _ | fieldKind .. | typeBlank => "E004"
  | dependencyKind _ | dependenciesKind _ => "E005"
  | duplicateId _ => "E007"
  | invalidId _ => "E008"
  | unknownType .. => "E009"
  | unknownDependency .. => "E010"
  | repeatedDependency .. => "W001"
  | cycle _ => "E101"
  | missingParameter .. => "E201"
  | wrongKind .. => "E202"
  | unknownParameter .. => "W201"
  | badParameter _ => "E203"
  | conflict _ => "E204"
  | inputCount .. => "E301"
  | sourceWithInputs .. => "E302"
  | wrongShape .. => "E303"
  | missingColumns .. => "E304"
  | unbuildable _ => "E900"

def concern : Finding → Concern
  | unreadable _ | nodesAbsent | nodesKind | rootKind _ | entryKind .. | fieldAbsent _
  | fieldKind .. | typeBlank | dependencyKind _ | dependenciesKind _ => .syntactic
  | noNodes | duplicateId _ | invalidId _ | unknownType .. | unbuildable _ => .semantic
  | repeatedDependency .. | unknownDependency .. | cycle _ | sourceWithInputs .. => .dependency
  | missingParameter .. | wrongKind .. | unknownParameter .. | badParameter _ | conflict _ =>
    .parameter
  | inputCount .. | wrongShape .. => .typeCompatibility
  | missingColumns .. => .schema

def severity : Finding → Severity
  | repeatedDependency .. | unknownParameter .. => .warning
  | _ => .error

/-- The finding as a diagnostic, no place given yet. -/
def report (f : Finding) : Diagnostic :=
  { concern := f.concern, severity := f.severity, code := f.code, message := f.message }

end Finding
end Flowline
