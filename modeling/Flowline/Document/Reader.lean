import Flowline.Diagnostic.Finding
import Flowline.Document.Basic
import Flowline.Json.Reader
import Flowline.Toml.Reader
import Flowline.Yaml.Reader

/-! Reading a pipeline document from text: first the value, then the document in it. Every defect of
every node entry is reported. -/
namespace Flowline

/-- The format that a file extension stands for. -/
def Format.ofExtension (ext : String) : Format :=
  match Text.lowerAsciiText ext with
  | "json" => .json
  | "toml" => .toml
  | _ => .yaml

/-- The value that a text describes; blank YAML is null. -/
def Format.read (format : Format) (source : String) : Option Value :=
  match format with
  | .json => Json.read source
  | .toml => (Toml.read source).toOption.map Toml.Datum.toValue
  | .yaml => if Text.allBlank source then some .null else Yaml.read source

namespace Document

/-- A text as it is, a number as it is written; nothing else has a title. -/
def title? : Option Value → Option String
  | some (.str s) => some s
  | some (.int n) => some (toString n)
  | some (.float x) => some (Json.number x)
  | _ => none

/-- A field of an entry, or what is wrong with it. -/
abbrev Checked (α : Type) := Except (List Diagnostic) α

def entryPlace (index : Nat) : String := s!"nodes[{index}]"

def fieldPlace (index : Nat) (path : String) : String := s!"{entryPlace index}.{path}"

def faultAt (index : Nat) (path : String) (f : Finding) : Diagnostic :=
  f.report.atField (fieldPlace index path)

def readField (index : Nat) (field : EntryField) (convert : Value → Option α) :
    Option Value → Checked α
  | none => .error [faultAt index field.name (.fieldAbsent field)]
  | some v => match convert v with
    | some a => .ok a
    | none => .error [faultAt index field.name (.fieldKind field v.kindName)]

def readType (index : Nat) (v : Option Value) : Checked String :=
  match readField index .type Value.asStr? v with
  | .ok t => if Text.allBlank t then .error [faultAt index "type" .typeBlank] else .ok t
  | e => e

/-- Texts are dependencies, anything else is a fault at its index. -/
def readTargets (index : Nat) : Nat → List Value → List String × List Diagnostic
  | _, [] => ([], [])
  | i, .str s :: rest =>
    let (ids, faults) := readTargets index (i + 1) rest
    (s :: ids, faults)
  | i, v :: rest =>
    let (ids, faults) := readTargets index (i + 1) rest
    (ids, faultAt index s!"depends_on[{i}]" (.dependencyKind v.kindName) :: faults)

def readDependencies (index : Nat) : Option Value → Checked (List String)
  | none | some .null => .ok []
  | some (.list vs) =>
    match readTargets index 0 vs with
    | (ids, []) => .ok ids
    | (_, faults) => .error faults
  | some v => .error [faultAt index "depends_on" (.dependenciesKind v.kindName)]

def faults : Checked α → List Diagnostic
  | .ok _ => []
  | .error ds => ds

/-- One node entry. Its faults name the entry, and the node where its id is known. -/
def readEntry (index : Nat) : Value → Checked Declaration
  | .map fs =>
    let id := readField index .id Value.asStr? (Fields.get? fs "id")
    let type := readType index (Fields.get? fs "type")
    let params := readField index .params Value.asMap?
      (if Fields.has fs "params" then Fields.get? fs "params" else Fields.get? fs "parameters")
    let dependsOn := readDependencies index ((Fields.get? fs "depends_on").orElse fun _ => Fields.get? fs "dependsOn")
    match id, type, params, dependsOn with
    | .ok id, .ok type, .ok params, .ok dependsOn => .ok ⟨id, type, params, dependsOn⟩
    | _, _, _, _ =>
      let all := faults id ++ faults type ++ faults params ++ faults dependsOn
      .error (all.map fun d =>
        let placed := d.atLocation (entryPlace index)
        match id with
        | .ok id => placed.atNode id
        | .error _ => placed)
  | v => .error [(Finding.entryKind index v.kindName).report.atLocation (entryPlace index)]

/-- All entries, or all faults of all entries. -/
def readEntries : Nat → List Value → Checked (List Declaration)
  | _, [] => .ok []
  | i, v :: rest =>
    match readEntry i v, readEntries (i + 1) rest with
    | .ok d, .ok ds => .ok (d :: ds)
    | a, b => .error (faults a ++ faults b)

/-- The document in a value: a list of entries, or a mapping with a list of them. -/
def ofValue : Value → Checked Document
  | .null => .ok {}
  | .list vs => (readEntries 0 vs).map fun nodes => { nodes }
  | .map fs =>
    let titled (nodes : List Declaration) : Document :=
      { id := title? (Fields.get? fs "id"), name := title? (Fields.get? fs "name")
        description := title? (Fields.get? fs "description"), version := title? (Fields.get? fs "version"), nodes }
    match Fields.get? fs "nodes" with
    | some (.list vs) => (readEntries 0 vs).map titled
    | some .null => .ok (titled [])
    | some _ => .error [Finding.nodesKind.report.atField "nodes"]
    | none => .error [Finding.nodesAbsent.report]
  | v => .error [(Finding.rootKind v.kindName).report]

def read (source : String) (format : Format) : Checked Document :=
  match format.read source with
  | some v => ofValue v
  | none => .error [(Finding.unreadable format).report]

end Document
end Flowline
