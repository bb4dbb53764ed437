import Flowline.Data.Record

/-! What flows between nodes and into their parameters: data shapes, column schemas, parameter kinds
and the number of inputs a node takes. -/
namespace Flowline

/-- The structure of the data a node produces or consumes. -/
inductive Shape where
  | dataframe
  | signals
  | backtestResults
  | any
deriving DecidableEq, Inhabited

namespace Shape

def name : Shape → String
  | dataframe => "dataframe"
  | signals => "signals"
  | backtestResults => "backtest_results"
  | any => "any"

def all : List Shape := [dataframe, signals, backtestResults, any]

def ofName? (s : String) : Option Shape := all.find? (·.name == s)

/-- Records with named columns. -/
def isTabular : Shape → Bool
  | dataframe | signals => true
  | _ => false

def toValue (s : Shape) : Value := .str s.name

def decode : Decoder Shape := fun v => (Decode.variant v).bind ofName?

end Shape

/-- The columns of a node's output. -/
structure Schema where
  shape : Shape
  columns : List String
  /-- The output also carries the columns of the tabular inputs. -/
  inheritsInputs : Bool := false
  /-- The columns cannot be known before the run. -/
  isOpen : Bool := false
deriving DecidableEq, Inhabited

namespace Schema

/-- Nothing is known about the columns. -/
def unknown (shape : Shape) : Schema := ⟨shape, [], false, true⟩

def toValue (s : Schema) : Value :=
  .map [("shape", s.shape.toValue), ("columns", .strs s.columns),
    ("inheritsInputs", .bool s.inheritsInputs), ("open", .bool s.isOpen)]

def decode : Decoder Schema := fun v => do
  match ← slots [["shape"], ["columns"], ["inheritsInputs"], ["open"]] v with
  | [shape, columns, inherits, isOpen] =>
    return ⟨← shape.required Shape.decode, ← columns.required (Decode.list Decode.text),
      ← inherits.withDefault false Decode.bool, ← isOpen.withDefault false Decode.bool⟩
  | _ => none

end Schema

/-- The declared kind of a parameter. -/
inductive ParamKind where
  | string
  | integer
  | number
  | boolean
  | array
  | object
  | integerOrArray
  | any
deriving DecidableEq, Inhabited

namespace ParamKind

def accepts : ParamKind → Value → Bool
  | string, .str _ => true
  | integer, .int _ => true
  | number, .int _ => true
  | number, .float _ => true
  | boolean, .bool _ => true
  | array, .list _ => true
  | object, .map _ => true
  | integerOrArray, .int _ => true
  | integerOrArray, .list _ => true
  | any, _ => true
  | _, _ => false

/-- The kind in messages. -/
def phrase : ParamKind → String
  | string => "string"
  | integer => "integer"
  | number => "number"
  | boolean => "boolean"
  | array => "array"
  | object => "object"
  | integerOrArray => "integer or array"
  | any => "any"

/-- The kind in data. -/
def name : ParamKind → String
  | integerOrArray => "integer_or_array"
  | k => k.phrase

def all : List ParamKind :=
  [string, integer, number, boolean, array, object, integerOrArray, any]

def ofName? (s : String) : Option ParamKind := all.find? (·.name == s)

def toValue (k : ParamKind) : Value := .str k.name

def decode : Decoder ParamKind := fun v => (Decode.variant v).bind ofName?

end ParamKind

structure ParamSpec where
  name : String
  kind : ParamKind
deriving DecidableEq

namespace ParamSpec

def toValue (p : ParamSpec) : Value := .map [("name", .str p.name), ("kind", p.kind.toValue)]

def decode : Decoder ParamSpec := fun v => do
  match ← slots [["name"], ["kind"]] v with
  | [name, kind] => return ⟨← name.required Decode.text, ← kind.required ParamKind.decode⟩
  | _ => none

end ParamSpec

/-- How many dependencies a node takes; without a maximum there is no upper bound. -/
structure Arity where
  min : Nat
  max : Option Nat
deriving DecidableEq, Inhabited

namespace Arity

def none : Arity := ⟨0, some 0⟩
def exactly (n : Nat) : Arity := ⟨n, some n⟩
def between (lo hi : Nat) : Arity := ⟨lo, some hi⟩

def contains (a : Arity) (n : Nat) : Bool := a.min ≤ n && a.max.all (n ≤ ·)

/-- A source takes no dependencies at all. -/
def isSource (a : Arity) : Bool := a.max == some 0

def phrase (a : Arity) : String :=
  match a.max with
  | some hi =>
    if a.min = 0 ∧ hi = 0 then "no dependencies"
    else if a.min = hi then s!"exactly {hi}"
    else s!"between {a.min} and {hi}"
  | Option.none => s!"at least {a.min}"

def toValue (a : Arity) : Value :=
  .map [("min", .ofNat a.min), ("max", .ofOption (a.max.map .ofNat))]

def decode : Decoder Arity := fun v => do
  match ← slots [["min"], ["max"]] v with
  | [lo, hi] => return ⟨← lo.required Decode.word64, ← hi.optional Decode.word64⟩
  | _ => Option.none

end Arity

/-- What a node expects of its inputs, its parameters taken into account. -/
structure InputSchema where
  arity : Arity
  accepted : List Shape
  requiredColumns : List String
deriving DecidableEq, Inhabited

namespace InputSchema

def toValue (s : InputSchema) : Value :=
  .map [("arity", s.arity.toValue), ("accepted", .list (s.accepted.map Shape.toValue)),
    ("requiredColumns", .strs s.requiredColumns)]

def decode : Decoder InputSchema := fun v => do
  match ← slots [["arity"], ["accepted"], ["requiredColumns"]] v with
  | [arity, accepted, columns] =>
    return ⟨← arity.required Arity.decode, ← accepted.required (Decode.list Shape.decode),
      ← columns.required (Decode.list Decode.text)⟩
  | _ => none

end InputSchema

/-- Where nodes of a type are executed. -/
inductive Backend where
  | builtin
  | python
  | javaScript
  | custom
deriving DecidableEq, Inhabited

namespace Backend

def name : Backend → String
  | builtin => "builtin"
  | python => "python"
  | javaScript => "javascript"
  | custom => "custom"

def ofName? : String → Option Backend
  | "builtin" => some builtin
  | "python" => some python
  | "javascript" | "js" => some javaScript
  | "custom" => some custom
  | _ => none

def isSandboxed (b : Backend) : Bool := b != builtin

def toValue (b : Backend) : Value := .str b.name

def decode : Decoder Backend := fun v => (Decode.variant v).bind ofName?

end Backend

end Flowline
