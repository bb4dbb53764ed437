import Flowline.Market.Arithmetic

/-! Columns of numbers with gaps. -/
namespace Flowline.Market

/-- A cell without a number is none. -/
abbrev Column (α : Type) := List (Option α)

namespace Column

/-- The column moved down by `n` rows, or up if `n` is negative; gaps come in at the end. -/
def shift (values : Column α) (n : Int) : Column α :=
  let k := min n.natAbs values.length
  if 0 ≤ n then List.replicate k none ++ values.take (values.length - k)
  else values.drop k ++ List.replicate k none

/-- Row by row, where both columns have a number. -/
def combine (op : α → β → Option γ) (a : Column α) (b : Column β) : Column γ :=
  a.zipWith (fun x y => x.bind fun x => y.bind fun y => op x y) b

def combineM (op : α → β → Except Fault γ) (a : Column α) (b : Column β) :
    Except Fault (Column γ) :=
  (a.zip b).mapM fun
    | (some x, some y) => (op x y).map some
    | _ => .ok none

/-- The cells of the window that ends at row `i`; no window has less than no rows. -/
def window (size : Int) (values : Column α) (i : Nat) : Column α :=
  (values.take (i + 1)).drop (i + 1 - size.toNat)

/-- What a window reduces to, if it is complete. -/
def rollAt (size : Int) (reduce : List α → Except Fault (Option β)) (values : Column α) (i : Nat) :
    Except Fault (Option β) :=
  let cells := values.window size i
  if i + 1 < size.toNat || cells.any Option.isNone then .ok none else reduce (cells.filterMap id)

def rolling (size : Int) (reduce : List α → Except Fault (Option β)) (values : Column α) :
    Except Fault (Column β) :=
  (List.range values.length).mapM (values.rollAt size reduce)

section
variable [Arithmetic α]
open Arithmetic

def diff (values : Column α) (n : Int) : Column α :=
  values.combine (fun a b => some (a - b)) (values.shift n)

/-- The change against `n` rows before, as a fraction. -/
def change (values : Column α) (n : Int) : Column α :=
  values.combine (fun a b => ratio (a - b) b) (values.shift n)

def average (size : Int) (values : Column α) : Except Fault (Column α) :=
  values.rolling size fun xs => (mean xs).map some

/-- An exponential mean: the weighted sum so far, its weights, and the mean before. -/
structure Smoothing (α : Type) where
  total : α
  weight : α
  last : Option α

def Smoothing.add (keep : α) (s : Smoothing α) : Option α → Except Fault (Smoothing α)
  | none => .ok s
  | some v => do
    let total := v + keep * s.total
    let weight := one + keep * s.weight
    return ⟨total, weight, some (← quotient total weight)⟩

def smoothFrom (keep : α) (s : Smoothing α) : Column α → Except Fault (Column α)
  | [] => .ok []
  | v :: rest => do
    let s ← s.add keep v
    return s.last :: (← smoothFrom keep s rest)

/-- The exponential mean of a span, with bias adjustment. -/
def smooth (span : Int) (values : Column α) : Except Fault (Column α) := do
  let alpha ← quotient (ofInt 2) (← ofInt? (span + 1) : α)
  smoothFrom (one - alpha) ⟨zero, zero, none⟩ values

end
end Column
end Flowline.Market
