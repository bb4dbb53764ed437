/-! Reading decimal numerals: digits with an optional point and an optional exponent. -/
namespace Flowline.Decimal

def digitValue (c : Char) : Nat := c.toNat - '0'.toNat

/-- The number that a run of digits stands for. -/
def natOfDigits (ds : List Char) : Nat := ds.foldl (fun n c => 10 * n + digitValue c) 0

/-- The float nearest to `coeff * 10^exp`. Far outside the range of floats the answer is known
without computing the power. -/
def toFloat (neg : Bool) (coeff : Nat) (exp : Int) : Float :=
  let size : Int := (Nat.toDigits 10 coeff).length
  let x : Float :=
    if coeff == 0 then 0.0
    else if size + exp > 400 then 1.0 / 0.0
    else if size + exp < -400 then 0.0
    else if exp < 0 then Float.ofScientific coeff true exp.natAbs
    else Float.ofScientific (coeff * Nat.pow 10 exp.toNat) false 0
  if neg then -x else x

/-- A run of digits and what follows it. -/
def spanDigits (s : List Char) : List Char × List Char := s.span Char.isDigit

/-- A sign that may be left out, and what follows it: whether it is a minus. -/
def sign (s : List Char) : Bool × List Char :=
  match s with
  | '-' :: r => (true, r)
  | '+' :: r => (false, r)
  | r => (false, r)

/-- An exponent after its mark: sign and at least one digit. -/
def exponent? (s : List Char) : Option (Int × List Char) :=
  let (neg, s) := sign s
  match spanDigits s with
  | ([], _) => none
  | (ds, rest) =>
    -- leading zeros aside, six digits already exceed every float
    let ds := ds.dropWhile (· == '0')
    let n : Int := if ds.length > 6 then 1000000 else natOfDigits ds
    some (if neg then -n else n, rest)

/-- Letters compared without regard to ASCII case. -/
def isWord (word : String) (s : List Char) : Bool :=
  s.map Char.toLower == word.toList

/-- An unsigned decimal: digits on at least one side of the point, then perhaps an exponent. -/
def unsigned? (neg : Bool) (s : List Char) : Option Float := do
  let (whole, rest) := spanDigits s
  let (frac, rest) := match rest with
    | '.' :: r => spanDigits r
    | r => ([], r)
  if whole.isEmpty && frac.isEmpty then failure
  let coeff := natOfDigits (whole ++ frac)
  match rest with
  | [] => return toFloat neg coeff (-(frac.length : Int))
  | c :: r =>
    if c == 'e' || c == 'E' then
      let (e, rest) ← exponent? r
      if rest.isEmpty then return toFloat neg coeff (e - frac.length) else failure
    else failure

/-- A float numeral: an optional sign, then a decimal, `inf`, `infinity` or `nan` in any case. -/
def float? (s : List Char) : Option Float :=
  let (neg, s) := sign s
  if isWord "inf" s || isWord "infinity" s then some (if neg then -(1.0 / 0.0) else 1.0 / 0.0)
  else if isWord "nan" s then some (0.0 / 0.0)
  else unsigned? neg s

end Flowline.Decimal
