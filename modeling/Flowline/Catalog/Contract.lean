import Flowline.Diagnostic.Finding
import Flowline.Document.Basic

/-! Contracts of node types: where a type runs, its parameters, what it takes and what it produces. -/
namespace Flowline

structure InputContract where
  arity : Arity
  accepted : List Shape
  /-- The columns that have to be found across the tabular inputs. -/
  requiredColumns : Fields → List String := fun _ => []
deriving Inhabited

namespace InputContract

def source : InputContract := ⟨.none, [], fun _ => []⟩

def accepts (c : InputContract) (produced : Shape) : Bool :=
  produced == .any || c.accepted.any fun s => s == .any || s == produced

def resolve (c : InputContract) (params : Fields) : InputSchema :=
  ⟨c.arity, c.accepted, c.requiredColumns params⟩

end InputContract

/-- A rule over the parameters of one node; it runs when they are present and of their kinds. -/
abbrev Rule := Declaration → List Diagnostic

structure Contract where
  type : String
  backend : Backend
  description : String := ""
  required : List ParamSpec := []
  optional : List ParamSpec := []
  input : InputContract := .source
  output : Fields → Schema := fun _ => .unknown .any
  rules : List Rule := []
deriving Inhabited

namespace Contract

def param? (c : Contract) (name : String) : Option ParamSpec :=
  (c.required ++ c.optional).find? (·.name == name)

def isSource (c : Contract) : Bool := c.input.arity.isSource

end Contract
end Flowline
