import Flowline.Market.Coerce

/-! The numbers that the market scripts reckon with. -/
namespace Flowline.Market

class Arithmetic (α : Type) extends Add α, Sub α, Mul α, Div α, Neg α where
  ofInt : Int → α
  /-- An integer, if it is not too large. -/
  ofInt? : Int → Except Fault α
  /-- Strictly less. -/
  less : α → α → Bool
  equal : α → α → Bool
  sqrt : α → α
  /-- A power, if it is not too large. -/
  power? : α → α → Option α
  /-- The integer below a number that is not negative. -/
  floor : α → Nat

namespace Arithmetic

instance : Arithmetic Float where
  ofInt := Value.floatOfInt
  ofInt? := floatOfInt?
  less a b := a < b
  equal a b := a == b
  sqrt := Float.sqrt
  power? x y :=
    let p := x.pow y
    if p.isInf && x.isFinite && y.isFinite then none else some p
  floor x := (Decimal.truncated x).toNat

variable [Arithmetic α]

def zero : α := ofInt 0
def one : α := ofInt 1

def isZero (a : α) : Bool := equal a zero

def atMost (a b : α) : Bool := less a b || equal a b

/-- The first of the largest numbers. -/
def larger (a b : α) : α := if less a b then b else a

def smaller (a b : α) : α := if less b a then b else a

def abs (a : α) : α := if less a zero then -a else a

def sum (xs : List α) : α := xs.foldl (· + ·) zero

def quotient (a b : α) : Except Fault α := if isZero b then .error .quotient else .ok (a / b)

/-- A quotient, if there is something to divide by. -/
def ratio (a b : α) : Option α := if isZero b then none else some (a / b)

def power (a b : α) : Except Fault α :=
  match power? a b with
  | some p => .ok p
  | none => .error .outOfRange

def square (a : α) : Except Fault α := power a (ofInt 2)

def mean (xs : List α) : Except Fault α :=
  if xs.isEmpty then .error .emptyMean else .ok (sum xs / ofInt xs.length)

/-- The standard deviation of a sample; one number has none. -/
def deviation? (xs : List α) : Except Fault (Option α) :=
  if xs.length < 2 then .ok none
  else do
    let m ← mean xs
    let squares ← xs.mapM fun x => square (x - m)
    return some (sqrt (sum squares / ofInt (xs.length - 1 : Nat)))

def minimum : List α → Except Fault α
  | [] => .error .emptyMinimum
  | x :: xs => .ok (xs.foldl smaller x)

def maximum : List α → Except Fault α
  | [] => .error .emptyMaximum
  | x :: xs => .ok (xs.foldl larger x)

end Arithmetic
end Flowline.Market
