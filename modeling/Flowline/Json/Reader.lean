import Flowline.Data.Value
import Flowline.Decimal.Reader

/-! Reading JSON text. Nesting is limited, and the recursion is on what is left of that limit. How a
field joins those before it is a parameter: in a data value a repeated key keeps its first place and
takes its last value, while a reader of records has to see every repetition. -/
namespace Flowline.Json

/-- Containers may nest this deep. -/
def depthLimit : Nat := 127

def isJsonBlank (c : Char) : Bool := c = ' ' || c = '\n' || c = '\t' || c = '\r'

def skipBlanks (s : List Char) : List Char := s.dropWhile isJsonBlank

def hexValue? (c : Char) : Option Nat :=
  if '0' ≤ c ∧ c ≤ '9' then some (c.toNat - 48)
  else if 'a' ≤ c ∧ c ≤ 'f' then some (c.toNat - 87)
  else if 'A' ≤ c ∧ c ≤ 'F' then some (c.toNat - 55)
  else none

def hex4? (a b c d : Char) : Option Nat := do
  return 4096 * (← hexValue? a) + 256 * (← hexValue? b) + 16 * (← hexValue? c) + (← hexValue? d)

/-- What a one-letter escape stands for. -/
def unescape? : Char → Option Char
  | '"' => some '"'
  | '\\' => some '\\'
  | '/' => some '/'
  | 'b' => some (Char.ofNat 8)
  | 'f' => some (Char.ofNat 12)
  | 'n' => some '\n'
  | 'r' => some '\r'
  | 't' => some '\t'
  | _ => none

/-- The rest of a quoted text after its opening quote. Two escaped surrogates make one character;
a lone one is refused, and so is a bare control character. -/
def textBody (acc : List Char) : List Char → Option (List Char × List Char)
  | [] => none
  | '"' :: rest => some (acc.reverse, rest)
  | '\\' :: 'u' :: a :: b :: c :: d :: rest =>
    match hex4? a b c d with
    | none => none
    | some n =>
      if n < 0xD800 || 0xE000 ≤ n then textBody (Char.ofNat n :: acc) rest
      else if 0xDC00 ≤ n then none
      else match rest with
        | '\\' :: 'u' :: a :: b :: c :: d :: rest =>
          match hex4? a b c d with
          | none => none
          | some m =>
            if 0xDC00 ≤ m && m < 0xE000 then
              textBody (Char.ofNat (0x10000 + (n - 0xD800) * 0x400 + (m - 0xDC00)) :: acc) rest
            else none
        | _ => none
  | '\\' :: c :: rest =>
    match unescape? c with
    | some ch => textBody (ch :: acc) rest
    | none => none
  | c :: rest => if c.toNat < 32 || c = '\\' then none else textBody (c :: acc) rest

/-- The sign of a numeral, and what follows it. -/
def sign (s : List Char) : Bool × List Char :=
  match s with
  | '-' :: r => (true, r)
  | r => (false, r)

/-- The digits before the point; a zero stands alone. -/
def whole? (s : List Char) : Option (List Char × List Char) :=
  match s with
  | '0' :: r => if (r.head?.map Char.isDigit).getD false then none else some (['0'], r)
  | r => match Decimal.spanDigits r with
    | ([], _) => none
    | p => some p

/-- The digits behind the point, if there is one. -/
def places? (s : List Char) : Option (Option (List Char) × List Char) :=
  match s with
  | '.' :: r => match Decimal.spanDigits r with
    | ([], _) => none
    | (ds, r) => some (some ds, r)
  | r => some (none, r)

/-- The exponent, if there is one. -/
def power? (s : List Char) : Option (Option Int × List Char) :=
  match s with
  | 'e' :: r | 'E' :: r => (Decimal.exponent? r).map fun (e, r) => (some e, r)
  | r => some (none, r)

/-- What the parts of a numeral stand for: integers that fit a 64-bit word stay integers, all others
are floats, and a float beyond the range is refused. -/
def numeral? (neg : Bool) (whole : List Char) (frac : Option (List Char)) (exp : Option Int) :
    Option Value :=
  let n := Decimal.natOfDigits whole
  let signed : Int := if neg then -n else n
  let integral := frac.isNone && exp.isNone && !(neg && n == 0)
  if integral && Value.minInt ≤ signed && signed ≤ Value.maxUnsigned then some (.int signed)
  else
    let ds := frac.getD []
    let x := Decimal.toFloat neg (Decimal.natOfDigits (whole ++ ds)) (exp.getD 0 - ds.length)
    if x.isFinite then some (.float x) else none

/-- A numeral and what follows it. -/
def number? (s : List Char) : Option (Value × List Char) := do
  let (neg, rest) := sign s
  let (whole, rest) ← whole? rest
  let (frac, rest) ← places? rest
  let (exp, rest) ← power? rest
  return (← numeral? neg whole frac exp, rest)

/-- A reader of one value: the value and the rest of the text. -/
abbrev Reader (α : Type) := List Char → Option (α × List Char)

/-- The items of a list after its bracket; each round consumes text, so its length bounds them. -/
def items (one : Reader Value) : Nat → List Value → Reader (List Value)
  | 0, _, _ => none
  | fuel + 1, acc, s =>
    match one (skipBlanks s) with
    | none => none
    | some (v, rest) =>
      match skipBlanks rest with
      | ',' :: rest => items one fuel (v :: acc) rest
      | ']' :: rest => some ((v :: acc).reverse, rest)
      | _ => none

/-- How a further field joins the fields before it. -/
abbrev AddField := Fields → String → Value → Fields

/-- The fields of a mapping after its brace. -/
def fields (add : AddField) (one : Reader Value) : Nat → Fields → Reader Fields
  | 0, _, _ => none
  | fuel + 1, acc, s =>
    match skipBlanks s with
    | '"' :: rest =>
      match textBody [] rest with
      | none => none
      | some (key, rest) =>
        match skipBlanks rest with
        | ':' :: rest =>
          match one (skipBlanks rest) with
          | none => none
          | some (v, rest) =>
            let acc := add acc (String.ofList key) v
            match skipBlanks rest with
            | ',' :: rest => fields add one fuel acc rest
            | '}' :: rest => some (acc, rest)
            | _ => none
        | _ => none
    | _ => none

/-- One value, no blanks before it. -/
def value (add : AddField) : Nat → Reader Value
  | _, 'n' :: 'u' :: 'l' :: 'l' :: rest => some (.null, rest)
  | _, 't' :: 'r' :: 'u' :: 'e' :: rest => some (.bool true, rest)
  | _, 'f' :: 'a' :: 'l' :: 's' :: 'e' :: rest => some (.bool false, rest)
  | _, '"' :: rest => (textBody [] rest).map fun (s, r) => (.str (String.ofList s), r)
  | depth + 1, '[' :: rest =>
    match skipBlanks rest with
    | ']' :: rest => some (.list [], rest)
    | rest => (items (value add depth) (rest.length + 1) [] rest).map fun (xs, r) => (.list xs, r)
  | depth + 1, '{' :: rest =>
    match skipBlanks rest with
    | '}' :: rest => some (.map [], rest)
    | rest => (fields add (value add depth) (rest.length + 1) [] rest).map fun (fs, r) => (.map fs, r)
  | _, s => number? s

/-- A whole document: one value with blanks around it. -/
def readChars (add : AddField) (s : List Char) : Option Value :=
  match value add depthLimit (skipBlanks s) with
  | some (v, rest) => if (skipBlanks rest).isEmpty then some v else none
  | none => none

def read (s : String) : Option Value := readChars Fields.insert s.toList

/-- A further field goes to the end, whatever its key. -/
def appendField : AddField := fun fs key v => fs ++ [(key, v)]

/-- Keeps repeated keys, for records. -/
def readRecord (s : String) : Option Value := readChars appendField s.toList

end Flowline.Json
