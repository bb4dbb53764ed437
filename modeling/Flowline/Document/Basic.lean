import Flowline.Json.Printer
import Flowline.Digest.SipHash

/-! Pipeline documents: node declarations in the order they were written. -/
namespace Flowline

/-- One declared node. -/
structure Declaration where
  id : String
  type : String
  params : Fields
  dependsOn : List String
deriving Inhabited

/-- The elements in order of first occurrence, each once. -/
def distinct [DecidableEq α] : List α → List α
  | [] => []
  | a :: rest => a :: (distinct rest).filter (· ≠ a)

namespace Declaration

/-- The ids that the node depends on, each once, in order of first listing. -/
def dependencies (d : Declaration) : List String := distinct d.dependsOn

def param? (d : Declaration) (key : String) : Option Value := d.params.get? key
def text? (d : Declaration) (key : String) : Option String := (d.param? key).bind Value.asStr?
def int? (d : Declaration) (key : String) : Option Int := (d.param? key).bind Value.asInt?
def number? (d : Declaration) (key : String) : Option Float := (d.param? key).bind Value.asFloat?

def toValue (d : Declaration) : Value :=
  .map [("id", .str d.id), ("type", .str d.type), ("parameters", .map d.params),
    ("dependsOn", .strs d.dependsOn)]

end Declaration

structure Document where
  id : Option String := none
  name : Option String := none
  description : Option String := none
  version : Option String := none
  nodes : List Declaration := []
deriving Inhabited

namespace Document

def toValue (d : Document) : Value :=
  .map [("id", .ofStr? d.id), ("name", .ofStr? d.name), ("description", .ofStr? d.description),
    ("version", .ofStr? d.version), ("nodes", .list (d.nodes.map Declaration.toValue))]

/-- The hash of the document's text on one line. -/
def hash (d : Document) : UInt64 := SipHash.hashText (Json.compact d.toValue)

end Document
end Flowline
