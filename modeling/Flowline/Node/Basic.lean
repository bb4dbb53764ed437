import Flowline.Frame.Basic
import Flowline.Run.Result

/-! What a node is given when it is executed. -/
namespace Flowline

structure Invocation where
  node : String
  type : String
  backend : Backend
  params : Fields
  /-- Outputs of the dependencies, in order of dependency. -/
  inputs : List (String × Value)
deriving Inhabited

namespace Invocation

/-- The outputs by producer. -/
def inputFields (i : Invocation) : Fields := Fields.ofList i.inputs

def text? (i : Invocation) (key : String) : Option String := (i.params.get? key).bind Value.asStr?
def int? (i : Invocation) (key : String) : Option Int := (i.params.get? key).bind Value.asInt?
def nat? (i : Invocation) (key : String) : Option Nat := (i.params.get? key).bind Value.asNat?
def float? (i : Invocation) (key : String) : Option Float :=
  (i.params.get? key).bind Value.asFloat?

/-- The one tabular input. -/
def singleFrame (i : Invocation) : Except NodeError Frame :=
  match i.inputs with
  | [(_, v)] => Frame.ofValue v
  | [] => .error (.input s!"node {i.node} requires an input")
  | inputs => .error (.input s!"node {i.node} takes exactly one input, got {inputs.length}")

end Invocation
end Flowline
