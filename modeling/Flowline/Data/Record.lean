import Flowline.Data.Value

/-! Records read from values: named fields, some under several names, some with defaults. A record
may also be written as the list of its fields in order. -/
namespace Flowline

/-- A reader of one type of data. -/
abbrev Decoder (α : Type) := Value → Option α

/-- What was found for one field of a record. -/
structure Slot where
  value : Option Value
  /-- The record was written as a list; only fields with defaults may be left out then. -/
  positional : Bool

/-- The slots of a record with the given fields, each with its names. Other fields are ignored, a
field given twice is refused. -/
def slots (names : List (List String)) : Value → Option (List Slot)
  | .map fs => names.mapM fun alts =>
      match fs.filter fun f => alts.contains f.1 with
      | [] => some ⟨none, false⟩
      | [(_, v)] => some ⟨some v, false⟩
      | _ => none
  | .list vs =>
    if vs.length ≤ names.length then
      some ((List.range names.length).map fun i => ⟨vs[i]?, true⟩)
    else none
  | _ => none

namespace Slot

def required (d : Decoder α) (s : Slot) : Option α := s.value.bind d

def withDefault (a : α) (d : Decoder α) (s : Slot) : Option α :=
  match s.value with
  | none => some a
  | some v => d v

def nullable (d : Decoder α) : Decoder (Option α)
  | .null => some none
  | v => (d v).map some

/-- Null or absent is none. -/
def optional (d : Decoder α) (s : Slot) : Option (Option α) :=
  match s.value with
  | none => if s.positional then none else some none
  | some v => nullable d v

/-- As `optional`, and may be left out of a list. -/
def optionalDefault (d : Decoder α) (s : Slot) : Option (Option α) := s.withDefault none (nullable d)

end Slot

namespace Decode

def any : Decoder Value := fun v => some v.settle

def text : Decoder String := Value.asStr?

def bool : Decoder Bool := Value.asBool?

/-- A natural number up to `max`; a float is none. -/
def natUpTo (max : Nat) : Decoder Nat
  | .int n => if 0 ≤ n ∧ n ≤ max then some n.toNat else none
  | _ => none

def word64 : Decoder Nat := natUpTo 0xFFFFFFFFFFFFFFFF
def word32 : Decoder Nat := natUpTo 0xFFFFFFFF

def list (d : Decoder α) : Decoder (List α)
  | .list vs => vs.mapM d
  | _ => none

def fields : Decoder Fields
  | .map fs => (Value.map fs).settle.asMap?
  | _ => none

/-- A mapping whose values are all of one type. -/
def mapOf (d : Decoder α) : Decoder (List (String × α))
  | .map fs => fs.mapM fun (k, v) => (d v).map (k, ·)
  | _ => none

/-- The name of a bare alternative, alone or as the one key of a mapping to null. -/
def variant : Decoder String
  | .str s => some s
  | .map [(s, .null)] => some s
  | _ => none

end Decode

/-- A field that is left out when there is nothing to say. -/
def field? (key : String) : Option Value → Fields
  | some v => [(key, v)]
  | none => []

end Flowline
