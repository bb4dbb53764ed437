/-! The values that flow through a pipeline: null, booleans, numbers, texts, lists and mappings.
A mapping keeps its fields in the order in which they were first written. -/
namespace Flowline

/-- A data value. Integers are kept apart from floats: `1` and `1.0` differ. -/
inductive Value where
  | null
  | bool (b : Bool)
  | int (n : Int)
  | float (x : Float)
  | str (s : String)
  | list (items : List Value)
  | map (fields : List (String × Value))
deriving Inhabited

/-- The fields of a mapping, in order. -/
abbrev Fields := List (String × Value)

namespace Fields

def get? : Fields → String → Option Value
  | [], _ => none
  | (k, v) :: rest, key => if k = key then some v else get? rest key

def has (fs : Fields) (key : String) : Bool := fs.any (·.1 == key)

def keys (fs : Fields) : List String := fs.map (·.1)

/-- A known key keeps its place and takes the new value; a new key goes to the end. -/
def insert : Fields → String → Value → Fields
  | [], key, v => [(key, v)]
  | (k, w) :: rest, key, v => if k = key then (k, v) :: rest else (k, w) :: insert rest key v

/-- Drops a field; the last field moves into the gap. -/
def remove (fs : Fields) (key : String) : Fields :=
  match fs.findIdx? (·.1 == key) with
  | none => fs
  | some i =>
    match fs.getLast? with
    | none => fs
    | some last => if i + 1 = fs.length then fs.dropLast else (fs.set i last).dropLast

/-- Inserts the fields one after the other. -/
def ofList (fs : List (String × Value)) : Fields := fs.foldl (fun acc (k, v) => acc.insert k v) []

end Fields

namespace Value

def isNull : Value → Bool
  | null => true
  | _ => false

def isStr : Value → Bool
  | str _ => true
  | _ => false

def isList : Value → Bool
  | list _ => true
  | _ => false

def isMap : Value → Bool
  | map _ => true
  | _ => false

def isNumber : Value → Bool
  | int _ | float _ => true
  | _ => false

def asBool? : Value → Option Bool
  | bool b => some b
  | _ => none

def asStr? : Value → Option String
  | str s => some s
  | _ => none

def asList? : Value → Option (List Value)
  | list xs => some xs
  | _ => none

def asMap? : Value → Option Fields
  | map fs => some fs
  | _ => none

/-- The field of a mapping; other values have none. -/
def get? : Value → String → Option Value
  | map fs, key => Fields.get? fs key
  | _, _ => none

/-- Bounds of the integers that a value can hold: those of 64-bit words, signed or unsigned. -/
def minInt : Int := -0x8000000000000000
def maxSigned : Int := 0x7FFFFFFFFFFFFFFF
def maxUnsigned : Int := 0xFFFFFFFFFFFFFFFF

/-- The integer, if it fits a signed word. -/
def asInt? : Value → Option Int
  | int n => if n ≤ maxSigned then some n else none
  | _ => none

/-- The integer, if it is not negative. -/
def asNat? : Value → Option Nat
  | int n => if 0 ≤ n then some n.toNat else none
  | _ => none

/-- The float nearest to an integer. -/
def floatOfInt (n : Int) : Float :=
  if n < 0 then -(Float.ofScientific n.natAbs false 0) else Float.ofScientific n.natAbs false 0

/-- Any number as a float. -/
def asFloat? : Value → Option Float
  | int n => some (floatOfInt n)
  | float x => some x
  | _ => none

/-- A float as a value; what is not finite has no value of its own and becomes null. -/
def ofFloat (x : Float) : Value := if x.isFinite then float x else null

def ofOption : Option Value → Value
  | some v => v
  | none => null

def ofStr? : Option String → Value
  | some s => str s
  | none => null

def ofNat (n : Nat) : Value := int n

def strs (l : List String) : Value := list (l.map str)

/-- The word for a kind of value, as diagnostics use it. -/
def kindName : Value → String
  | null => "null"
  | bool _ => "boolean"
  | int _ | float _ => "number"
  | str _ => "string"
  | list _ => "list"
  | map _ => "mapping"

mutual

/-- Equality of values: the order of a mapping's fields does not count. -/
def same : Value → Value → Bool
  | null, null => true
  | bool a, bool b => a == b
  | int a, int b => a == b
  | float a, float b => a == b
  | str a, str b => a == b
  | list a, list b => sameItems a b
  | map a, map b => a.length == b.length && sameFields a b
  | _, _ => false

def sameItems : List Value → List Value → Bool
  | [], [] => true
  | a :: as, b :: bs => same a b && sameItems as bs
  | _, _ => false

/-- Every field on the left has an equal field on the right. -/
def sameFields : List (String × Value) → List (String × Value) → Bool
  | [], _ => true
  | (k, v) :: rest, fs =>
    (match Fields.get? fs k with
    | some w => same v w
    | none => false) && sameFields rest fs

end

mutual

/-- Merges repeated keys at every level. -/
def settle : Value → Value
  | list xs => list (settleItems xs)
  | map fs => map (settleFields [] fs)
  | v => v

def settleItems : List Value → List Value
  | [] => []
  | v :: rest => settle v :: settleItems rest

def settleFields (acc : Fields) : List (String × Value) → Fields
  | [] => acc
  | (k, v) :: rest => settleFields (Fields.insert acc k (settle v)) rest

end

end Value
end Flowline
