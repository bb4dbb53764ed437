/-! Decimal digits of a binary float: the fewest that read back to the same value.
All arithmetic is exact, on the bits of the float. -/
namespace Flowline

/-- `coeff * 10^exp`. -/
structure Decimal where
  coeff : Nat
  exp : Int
deriving DecidableEq, Repr

namespace Decimal

/-- A finite non-negative float, `m * 2^q`. -/
structure Binary where
  m : Nat
  q : Int
  /-- The gap to the value below is half the gap to the value above. -/
  narrowBelow : Bool

/-- The magnitude that the bits of a finite float stand for. -/
def Binary.ofBits (b : UInt64) : Binary :=
  let e := ((b >>> 52) &&& 0x7FF).toNat
  let f := (b &&& 0xFFFFFFFFFFFFF).toNat
  if e == 0 then ⟨f, -1074, false⟩ else ⟨0x10000000000000 + f, (e : Int) - 1075, f == 0 && e > 1⟩

/-- Which of two equally close candidates is taken. -/
inductive Tie where
  | toEven
  | up
deriving DecidableEq

/-- Compares `a * 10^i` with `n * 2^j`, exactly. -/
def cmpScaled (a : Nat) (i : Int) (n : Nat) (j : Int) : Ordering :=
  compare (a * Nat.pow 10 i.toNat * Nat.pow 2 (-j).toNat)
    (n * Nat.pow 2 j.toNat * Nat.pow 10 (-i).toNat)

/-- The decimal lies among the reals that round to `x`: half way to either neighbour, the ends
included exactly when `x` is even. -/
def Binary.readsBack (x : Binary) (d : Decimal) : Bool :=
  let lo := if x.narrowBelow then 4 * x.m - 1 else 4 * x.m - 2
  let hi := 4 * x.m + 2
  let incl := x.m % 2 == 0
  let cl := cmpScaled d.coeff d.exp lo (x.q - 2)
  let ch := cmpScaled d.coeff d.exp hi (x.q - 2)
  (cl == .gt || (incl && cl == .eq)) && (ch == .lt || (incl && ch == .eq))

def digitCount (n : Nat) : Nat := (Nat.toDigits 10 n).length

/-- The float as a quotient of naturals. -/
def Binary.num (x : Binary) : Nat := x.m * Nat.pow 2 x.q.toNat
def Binary.den (x : Binary) : Nat := Nat.pow 2 (-x.q).toNat

/-- The least `k` with `x < 10^k`, for `x` not zero. -/
def Binary.scale (x : Binary) : Int :=
  if x.den ≤ x.num then digitCount (x.num / x.den)
  else 1 - (digitCount ((x.den - 1) / x.num) : Int)

/-- The best point of the grid `10^e`, if one of the two neighbours of `x` on it reads back. -/
def Binary.onGrid? (x : Binary) (tie : Tie) (e : Int) : Option Decimal :=
  let num := x.num * Nat.pow 10 (-e).toNat
  let den := x.den * Nat.pow 10 e.toNat
  let below := num / den
  let lo : Decimal := ⟨below, e⟩
  let hi : Decimal := ⟨below + 1, e⟩
  match x.readsBack lo && below != 0, x.readsBack hi with
  | true, false => some lo
  | false, true => some hi
  | false, false => none
  | true, true =>
    match compare (2 * num) ((2 * below + 1) * den), tie with
    | .lt, _ => some lo
    | .gt, _ => some hi
    | .eq, .up => some hi
    | .eq, .toEven => if below % 2 == 0 then some lo else some hi

/-- Moves trailing zeros of the coefficient into the exponent. -/
def strip : Nat → Decimal → Decimal
  | 0, d => d
  | fuel + 1, d =>
    if d.coeff != 0 && d.coeff % 10 == 0 then strip fuel ⟨d.coeff / 10, d.exp + 1⟩ else d

/-- The shortest decimal that reads back to `x`, and of those the nearest. -/
def Binary.shortest (x : Binary) (tie : Tie) : Decimal :=
  if x.m == 0 then ⟨0, 0⟩
  else
    let k := x.scale
    match (List.range 17).findSome? fun (n : Nat) => x.onGrid? tie (k - (n + 1)) with
    | some d => d.strip 20
    | none => ⟨x.num * Nat.pow 5 (-x.q).toNat, -((-x.q).toNat : Int)⟩

end Decimal

end Flowline
