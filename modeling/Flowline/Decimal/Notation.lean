import Flowline.Decimal.Shortest

/-! How a float is laid out as text once its digits are chosen. Each output format of the library
is one value of `Notation`. -/
namespace Flowline.Decimal

/-- The decisions of one number format. -/
structure Notation where
  /-- Exponents `e` of the leading digit with `plainFrom ≤ e < plainBelow` are written positionally. -/
  plainFrom : Int
  plainBelow : Int
  /-- Integral values end in `.0`. -/
  pointZero : Bool
  /-- Least number of digits of a written exponent. -/
  expWidth : Nat
  tie : Tie
  nan : String
  infinity : String

/-- Numbers in data documents. -/
def Notation.document : Notation where
  plainFrom := -5
  plainBelow := 16
  pointZero := true
  expWidth := 1
  tie := .toEven
  nan := "NaN"
  infinity := "inf"

/-- Numbers in messages and command lines: no exponent, no trailing `.0`. -/
def Notation.message : Notation where
  plainFrom := -400
  plainBelow := 400
  pointZero := false
  expWidth := 1
  tie := .up
  nan := "NaN"
  infinity := "inf"

/-- Numbers in the messages of the market scripts. -/
def Notation.script : Notation where
  plainFrom := -4
  plainBelow := 16
  pointZero := true
  expWidth := 2
  tie := .toEven
  nan := "nan"
  infinity := "inf"

def zeros (n : Nat) : List Char := List.replicate n '0'

/-- Lays out a non-negative decimal. -/
def Notation.layout (f : Notation) (d : Decimal) : List Char :=
  let digits := Nat.toDigits 10 d.coeff
  let n : Int := digits.length
  -- exponent of the leading digit
  let e := if d.coeff == 0 then 0 else n - 1 + d.exp
  if f.plainFrom ≤ e ∧ e < f.plainBelow then
    if e < 0 then '0' :: '.' :: zeros (-e - 1).toNat ++ digits
    else if n ≤ e + 1 then
      digits ++ zeros (e + 1 - n).toNat ++ (if f.pointZero then ['.', '0'] else [])
    else digits.take (e + 1).toNat ++ '.' :: digits.drop (e + 1).toNat
  else
    let mantissa := match digits with
      | d :: [] => [d]
      | d :: rest => d :: '.' :: rest
      | [] => []
    let expDigits := Nat.toDigits 10 e.natAbs
    mantissa ++ 'e' :: (if e < 0 then '-' else '+') :: zeros (f.expWidth - expDigits.length)
      ++ expDigits

def Notation.render (f : Notation) (x : Float) : String :=
  if x.isNaN then f.nan
  else
    let neg := x.toBits >>> 63 == 1
    let body := if x.isInf then f.infinity.toList
      else f.layout ((Binary.ofBits (x.toBits &&& 0x7FFFFFFFFFFFFFFF)).shortest f.tie)
    String.ofList (if neg then '-' :: body else body)

end Flowline.Decimal

/-! Floats with a fixed number of decimals, rounded exactly. -/
namespace Flowline

/-- A number with leading zeros. -/
def padded (width n : Nat) : String :=
  let ds := (toString n).toList
  String.ofList (List.replicate (width - ds.length) '0' ++ ds)

namespace Decimal

/-- An integer nearest to a quotient, ties to the even one. -/
def roundEven (num : Int) (den : Nat) : Int :=
  let q := num.fdiv den
  let r := 2 * (num.fmod den)
  if r < den then q else if (den : Int) < r then q + 1 else if q % 2 = 0 then q else q + 1

/-- A finite magnitude with the given number of decimals. -/
def Binary.fixed (places : Nat) (x : Binary) : String :=
  let unit := Nat.pow 10 places
  let n := (roundEven (x.num * unit : Nat) x.den).toNat
  s!"{n / unit}.{padded places (n % unit)}"

def fixed (places : Nat) (x : Float) : String :=
  if x.isNaN then "nan"
  else
    let body := if x.isInf then "inf"
      else (Binary.ofBits (x.toBits &&& 0x7FFFFFFFFFFFFFFF)).fixed places
    if x.toBits >>> 63 == 1 then "-" ++ body else body

/-- The integer that is left when the fraction of a finite float is cut off. -/
def truncated (x : Float) : Int :=
  let b := Binary.ofBits (x.toBits &&& 0x7FFFFFFFFFFFFFFF)
  let n : Int := (b.num / b.den : Nat)
  if x < 0.0 then -n else n

/-- The integer that a float equals, if there is one. -/
def integer? (x : Float) : Option Int :=
  let b := Binary.ofBits (x.toBits &&& 0x7FFFFFFFFFFFFFFF)
  if x.isFinite && b.num % b.den == 0 then some (truncated x) else none

end Decimal

end Flowline
