import Flowline.Market.Column
import Flowline.Proofs.Market.Integer
import Flowline.Proofs.Market.Outcome

/-!
# Columns keep their rows

Whatever is derived from a column has a cell for each of its rows. Means over windows and
exponential means cannot fail where the window holds a row and the span has a weight, since no
weight and no mean of what is not negative is negative.
-/
namespace Flowline.Market

open Float.Model.UnpackedFloat Arithmetic

/-! ### Numbers -/

/-- A number from zero on, or not a number. -/
abbrev NotNegative (x : Float) : Prop := Signed .positive x

theorem zero_notNegative : NotNegative zero := by rfl

theorem sum_notNegative {xs : List Float} (h : ∀ x ∈ xs, NotNegative x) : NotNegative (sum xs) := by
  unfold sum
  suffices ∀ acc, NotNegative acc → NotNegative (xs.foldl (· + ·) acc) from
    this _ zero_notNegative
  induction xs with
  | nil => exact fun _ hacc => hacc
  | cons x rest ih =>
    intro acc hacc
    exact ih (fun y hy => h y (List.mem_cons_of_mem _ hy)) _ (hacc.add (h x List.mem_cons_self))

variable {permitted : Fault → Prop}

theorem mean_ends {xs : List Float} (hne : xs ≠ []) :
    Ends permitted (fun m => (∀ x ∈ xs, NotNegative x) → NotNegative m) (mean xs) := by
  have hlen : (0 : Int) < xs.length := by
    have := List.length_pos_iff.mpr hne
    omega
  unfold mean
  rw [if_neg (by simpa using hne)]
  exact fun h => (sum_notNegative h).div (signed_ofInt hlen) (isZero_ofInt hlen.ne')

theorem quotient_eq {x y : Float} (h : isZero y = false) : quotient x y = .ok (x / y) := by
  unfold quotient
  rw [h]
  rfl

namespace Column

/-- The column has a number of rows, and its numbers have a property. -/
structure Holds (n : Nat) (p : α → Prop) (c : Column α) : Prop where
  rows : c.length = n
  numbers : ∀ x, some x ∈ c → p x

/-- The column has a number of rows. -/
abbrev Sized (n : Nat) (c : Column α) : Prop := Holds n (fun _ => True) c

variable {n : Nat} {values : Column α}

theorem sized_of_length (h : values.length = n) : Sized n values := ⟨h, fun _ _ => trivial⟩

theorem length_shift (k : Int) : (values.shift k).length = values.length := by
  unfold shift
  dsimp only
  split <;> simp

theorem length_combine (op : α → β → Option γ) (a : Column α) (b : Column β) :
    (combine op a b).length = min a.length b.length := List.length_zipWith

theorem sized_combine (op : α → β → Option γ) {a : Column α} {b : Column β} (ha : a.length = n)
    (hb : b.length = n) : Sized n (combine op a b) :=
  sized_of_length (by rw [length_combine, ha, hb, Nat.min_self])

/-- A span that gives a row some weight, and not all rows none. -/
structure IsSpan (span : Int) : Prop where
  weight : span ≠ 0
  total : span ≠ -1
  float : ∃ x, floatOfInt? (span + 1) = .ok x

end Column
end Flowline.Market
