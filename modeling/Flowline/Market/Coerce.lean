import Flowline.Data.Value
import Flowline.Decimal.Notation
import Flowline.Decimal.Reader
import Flowline.Market.Fault
import Flowline.Text.Blank
import Flowline.Text.Scan

/-! What the market scripts take a value of any type for: a number, a truth, a container. -/
namespace Flowline.Market

def typeName : Value → String
  | .null => "NoneType"
  | .bool _ => "bool"
  | .int _ => "int"
  | .float _ => "float"
  | .str _ => "str"
  | .list _ => "list"
  | .map _ => "dict"

/-- Zero and what is empty count as false. -/
def isTruthy : Value → Bool
  | .null => false
  | .bool b => b
  | .int n => n != 0
  | .float x => x != 0.0
  | .str s => !s.isEmpty
  | .list vs => !vs.isEmpty
  | .map fs => !fs.isEmpty

/-- The value, unless it counts as false. -/
def orElse (v : Option Value) (default : Value) : Value :=
  match v with
  | some v => if isTruthy v then v else default
  | none => default

/-- Drops underscores; each must stand between two digits. -/
def joined? (before : Option Char) : List Char → Option (List Char)
  | [] => some []
  | '_' :: rest =>
    if before.any Char.isDigit && rest.head?.any Char.isDigit then joined? none rest else none
  | c :: rest => (joined? (some c) rest).map (c :: ·)

/-- The characters of a numeral: digits of all scripts count, white space around it does not. -/
def numeral? (s : String) : Option (List Char) :=
  joined? none ((Text.trim s).toList.map Text.asciiDigit)

def floatOfText? (s : String) : Option Float := (numeral? s).bind Decimal.float?

def intOfText? (s : String) : Option Int := do
  let (neg, ds) := match ← numeral? s with
    | '-' :: r => (true, r)
    | '+' :: r => (false, r)
    | r => (false, r)
  if ds.isEmpty || !ds.all Char.isDigit then failure
  let n : Int := Decimal.natOfDigits ds
  return if neg then -n else n

def floatOfInt? (n : Int) : Except Fault Float :=
  let x := Value.floatOfInt n
  if x.isFinite then .ok x else .error .hugeInteger

def toFloat : Value → Except Fault Float
  | .bool b => .ok (if b then 1.0 else 0.0)
  | .int n => floatOfInt? n
  | .float x => .ok x
  | .str s => match floatOfText? s with
    | some x => .ok x
    | none => .error (.notNumeral s)
  | v => .error (.notReal (typeName v))

def toInt : Value → Except Fault Int
  | .bool b => .ok (if b then 1 else 0)
  | .int n => .ok n
  | .float x =>
    if x.isNaN then .error .nanInteger
    else if x.isInf then .error .infiniteInteger
    else .ok (Decimal.truncated x)
  | .str s => match intOfText? s with
    | some n => .ok n
    | none => .error (.notInteger s)
  | v => .error (.notIntegral (typeName v))

/-- The finite number in a cell; booleans are none. -/
def number (v : Value) : Option Float :=
  match v with
  | .bool _ => none
  | v => (toFloat v).toOption.filter Float.isFinite

/-- The field of a mapping, null if there is none. -/
def field (fs : Fields) (key : String) : Value := (Fields.get? fs key).getD .null

/-- A parameter, which may be given as null, or its default. -/
def param (params : Fields) (key : String) (default : Value) : Value :=
  (Fields.get? params key).getD default

/-- Numbers are equal if they stand for the same number. -/
def canonical : Value → Value
  | .bool b => .int (if b then 1 else 0)
  | .float x => match Decimal.integer? x with
    | some n => .int n
    | none => .float x
  | v => v

def alike (a b : Value) : Bool := (canonical a).same (canonical b)

/-- Lists and mappings are no keys. -/
def asKey (v : Value) : Except Fault Value :=
  if v.isList || v.isMap then .error (.notHashable (typeName v)) else .ok (canonical v)

/-- A container holds something: a mapping as a key, a list as an item, a text as a part. -/
def holds (container item : Value) : Except Fault Bool :=
  match container with
  | .map fs => do
    match ← asKey item with
    | .str s => return Fields.has fs s
    | _ => return false
  | .list vs => .ok (vs.any (alike item))
  | .str s => match item with
    | .str t => .ok (Text.hasInfix s t)
    | v => .error (.notSearched (typeName v))
  | v => .error (.notSearchable (typeName v))

/-- What a loop over a value goes through. -/
def elements : Value → Except Fault (List Value)
  | .list vs => .ok vs
  | .map fs => .ok (fs.map fun f => .str f.1)
  | .str s => .ok (s.toList.map fun c => .str c.toString)
  | v => .error (.notIterable (typeName v))

/-- A mapping, to look up a field in. -/
def asFields : Value → Except Fault Fields
  | .map fs => .ok fs
  | v => .error (.noAttribute (typeName v) "get")

/-- A pair as a field; a key that is no text is left out. -/
def pairField (i : Nat) (v : Value) : Except Fault (Option (String × Value)) :=
  match v with
  | .list vs => match vs with
    | [k, v] => do
      match ← asKey k with
      | .str s => return some (s, v)
      | _ => return none
    | vs => .error (.pairLength i vs.length)
  | .str s => match s.toList with
    | [a, b] => .ok (some (a.toString, .str b.toString))
    | cs => .error (.pairLength i cs.length)
  | .map fs => match fs with
    | [(a, _), (b, _)] => .ok (some (a, .str b))
    | fs => .error (.pairLength i fs.length)
  | _ => .error (.notPair i)

/-- The row that a record stands for: a mapping, or a list of pairs. -/
def toRow (v : Value) : Except Fault Fields :=
  match v with
  | .map fs => .ok fs
  | v => do
    let pairs ← (← elements v).zipIdx.mapM fun (item, i) => pairField i item
    return Fields.ofList (pairs.filterMap id)

end Flowline.Market
