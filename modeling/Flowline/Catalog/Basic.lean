import Flowline.Catalog.Builtin
import Flowline.Catalog.Custom

/-! The catalog of node types. -/
namespace Flowline

/-- Contracts by type, no type twice. -/
structure Catalog where
  contracts : List Contract := []
deriving Inhabited

namespace Catalog

def get? (c : Catalog) (type : String) : Option Contract := c.contracts.find? (·.type == type)

def contains (c : Catalog) (type : String) : Bool := (c.get? type).isSome

/-- Adds a contract or replaces that of the same type. -/
def register (c : Catalog) (k : Contract) : Catalog :=
  ⟨c.contracts.filter (·.type ≠ k.type) ++ [k]⟩

def builtin : Catalog := Builtin.contracts.foldl register {}

/-- Adds the custom types whose names are not taken; counts them. -/
def registerCustom (c : Catalog) (r : Registry) : Catalog × Nat :=
  r.definitions.foldl (fun (c, n) d =>
    if c.contains d.type then (c, n) else (c.register d.contract, n + 1)) (c, 0)

def backend? (c : Catalog) (type : String) : Option Backend := (c.get? type).map (·.backend)

/-- Type names in ascending order. -/
def known (c : Catalog) : List String := (c.contracts.map (·.type)).mergeSort (· ≤ ·)

def size (c : Catalog) : Nat := c.contracts.length

end Catalog

/-! Output schemas with inherited columns filled in. Answers are remembered: inside a cycle a node
that is still being resolved counts as unknown, and what is concluded from that stays. -/

structure Resolver where
  catalog : Catalog
  nodes : List Declaration
  known : List (String × Schema) := []

namespace Resolver

/-- The declaration of an id; of several the last one. -/
def node? (r : Resolver) (id : String) : Option Declaration := r.nodes.reverse.find? (·.id == id)

def addColumns (columns more : List String) : List String :=
  more.foldl (fun acc c => if acc.contains c then acc else acc ++ [c]) columns

/-- Columns and openness that one input passes on. -/
def inherit (acc : List String × Bool) (input : Schema) : List String × Bool :=
  (if input.shape.isTabular || input.shape == .any then addColumns acc.1 input.columns else acc.1,
    acc.2 || input.isOpen)

/-- Resolves a node; `visiting` are the nodes on the way to it, and `fuel` exceeds what is left of
the others. -/
def resolveAt : Nat → List String → String → StateM Resolver Schema
  | 0, _, _ => pure (.unknown .any)
  | fuel + 1, visiting, id => do
    let r ← get
    match r.known.lookup id with
    | some s => return s
    | none =>
    match (r.node? id).bind fun n => (r.catalog.get? n.type).map fun c => (n, c) with
    | none => return .unknown .any
    | some (n, c) =>
    if visiting.contains id then return .unknown .any
    let own := c.output n.params
    let mut resolved := own
    if own.inheritsInputs then
      let (columns, isOpen) ← n.dependencies.foldlM
        (fun acc d => do return inherit acc (← resolveAt fuel (id :: visiting) d)) ([], own.isOpen)
      resolved := ⟨own.shape, addColumns columns own.columns, false, isOpen⟩
    modify fun r => { r with known := (id, resolved) :: r.known }
    return resolved

/-- The schema of a node's output. Unknown ids and types have an unknown schema. -/
def resolve (id : String) : StateM Resolver Schema := do
  resolveAt ((← get).nodes.length + 1) [] id

def resolveAll (ids : List String) : StateM Resolver (List Schema) := ids.mapM resolve

end Resolver

end Flowline
