import Flowline.Data.Value
import Flowline.Decimal.Reader
import Flowline.Text.Blank

/-! A YAML document as a tree, aliases already replaced by what they name, and its value: keys are
texts, no key repeats, and the entries of a `<<` mapping fill in what the mapping itself lacks. -/
namespace Flowline.Yaml

/-! What an unquoted YAML scalar stands for: null, a boolean, a number or its own text. -/

def isNullText (s : List Char) : Bool :=
  s.isEmpty || s == ['~'] || Decimal.isWord "null" s

def bool? (s : List Char) : Option Bool :=
  if ["true", "yes", "y", "on"].any (Decimal.isWord · s) then some true
  else if ["false", "no", "n", "off"].any (Decimal.isWord · s) then some false
  else none

/-- A digit of a base up to sixteen. -/
def digit? (base : Nat) (c : Char) : Option Nat :=
  let value :=
    if '0' ≤ c ∧ c ≤ '9' then some (c.toNat - 48)
    else if 'a' ≤ c ∧ c ≤ 'f' then some (c.toNat - 87)
    else if 'A' ≤ c ∧ c ≤ 'F' then some (c.toNat - 55)
    else none
  value.filter (· < base)

/-- At least one digit; underscores may stand anywhere. -/
def digits? (base : Nat) (s : List Char) : Option Nat :=
  match s.filter (· != '_') with
  | [] => none
  | ds => ds.foldlM (fun n c => (digit? base c).map (base * n + ·)) 0

def natural? : List Char → Option Nat
  | '0' :: 'x' :: r | '0' :: 'X' :: r => digits? 16 r
  | '0' :: 'o' :: r | '0' :: 'O' :: r => digits? 8 r
  | '0' :: 'b' :: r | '0' :: 'B' :: r => digits? 2 r
  | r => digits? 10 r

/-- An integer that fits a 64-bit word: signed after a minus, else unsigned. -/
def int? (s : List Char) : Option Int :=
  match s with
  | '-' :: r => (natural? r).bind fun n => if Value.minInt ≤ -(n : Int) then some (-(n : Int)) else none
  | '+' :: r | r => (natural? r).bind fun n => if (n : Int) ≤ Value.maxUnsigned then some (n : Int) else none

/-- Infinities and undefined numbers under their YAML names. -/
def dottedFloat? (s : List Char) : Option Float :=
  if Decimal.isWord ".nan" s then some (0.0 / 0.0)
  else if Decimal.isWord ".inf" s || Decimal.isWord "+.inf" s then some (1.0 / 0.0)
  else if Decimal.isWord "-.inf" s then some (-(1.0 / 0.0))
  else none

/-- A float; what is not finite is kept as its YAML name. -/
def ofFloat (x : Float) : Value :=
  if x.isNaN then .str ".nan"
  else if x.isInf then .str (if x < 0 then "-.inf" else ".inf")
  else .float x

/-- The value of an unquoted scalar. -/
def resolve (text : String) : Value :=
  let s := text.toList
  if isNullText s then .null
  else match bool? s with
    | some b => .bool b
    | none => match int? s with
      | some n => .int n
      | none => match (dottedFloat? s).orElse fun _ => Decimal.float? s with
        | some x => ofFloat x
        | none => .str text

/-! Documents. -/

inductive Node where
  /-- A scalar; an unquoted one is `plain` and its value depends on its text. -/
  | scalar (plain : Bool) (text : String)
  | list (items : List Node)
  | map (entries : List (Node × Node))
deriving Inhabited

def Node.empty : Node := .scalar true ""

/-- The text of a key: any scalar but null. -/
def Node.key? : Node → Option String
  | .scalar plain text => if plain && isNullText text.toList then none else some text
  | _ => none

/-- The key that stands for the entries of another mapping. -/
def Node.isMerge : Node → Bool
  | .scalar true "<<" => true
  | _ => false

/-- The fields that a merged value brings: those of a mapping, of a list of mappings, or none. -/
def mergedFields? : Value → Option Fields
  | .null => some []
  | .map fs => some fs
  | .list vs => vs.foldlM (fun acc v => v.asMap?.map (acc ++ ·)) []
  | _ => none

/-- Adds the fields whose keys are new. -/
def fillIn (own more : Fields) : Fields :=
  more.foldl (fun acc (k, v) => if Fields.has acc k then acc else acc ++ [(k, v)]) own

mutual

def Node.toValue? : Node → Option Value
  | .scalar plain text => some (if plain then resolve text else .str text)
  | .list items => (itemValues? items).map .list
  | .map entries => (entryValues? entries).bind fun (own, merged) =>
      if (Fields.keys own).Nodup then some (.map (fillIn own merged)) else none

def itemValues? : List Node → Option (List Value)
  | [] => some []
  | n :: rest => do return (← n.toValue?) :: (← itemValues? rest)

/-- The mapping's own fields and the merged ones. -/
def entryValues? : List (Node × Node) → Option (Fields × Fields)
  | [] => some ([], [])
  | (k, v) :: rest => do
    let value ← v.toValue?
    let (own, merged) ← entryValues? rest
    if k.isMerge then return (own, (← mergedFields? value) ++ merged)
    else return ((← k.key?, value) :: own, merged)

end

end Flowline.Yaml
