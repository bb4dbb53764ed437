import Flowline.Market.Indicator
import Flowline.Proofs.Market.Column

/-!
# Indicators end

An indicator whose windows hold a row and whose spans have a weight gives columns with a cell for
each row, one of them under the bare name. Only the squares of deviations can still be out of range.
-/
namespace Flowline.Market

open Arithmetic

/-- Columns of a number of rows: one takes the bare name, the names of the others go on after a
line. -/
structure Derived.Sized (n : Nat) (d : Derived Float) : Prop where
  bare : "" ∈ d.map (·.1)
  endings : ∀ e ∈ d.map (·.1), e = "" ∨ '_' ∈ e.toList
  rows : ∀ p ∈ d, p.2.length = n

/-- Prices of a number of rows. -/
structure Prices.Sized (n : Nat) (p : Prices Float) : Prop where
  high : p.high.length = n
  low : p.low.length = n
  close : p.close.length = n
  volume : p.volume.length = n

namespace Indicator

variable {permitted : Fault → Prop} {n : Nat} {source : Column Float} {p : Prices Float}

theorem length_minus {a b : Column Float} (ha : a.length = n) (hb : b.length = n) :
    (minus a b).length = n := (Column.sized_combine _ ha hb).rows

theorem length_percent (c : Column Float) : (percent c).length = c.length := by simp [percent]

/-- Squares are all that can be out of range. -/
theorem deviation_ends (hrange : permitted .outOfRange) (xs : List Float) :
    Ends permitted (fun _ => True) (deviation? xs) := by
  unfold deviation?
  split
  · trivial
  · next hlen =>
    have hne : xs ≠ [] := by
      rintro rfl
      simp at hlen
    refine (mean_ends hne).bind fun m _ => ?_
    have hsquare : ∀ x ∈ xs, Ends permitted (fun _ => True) (square (x - m)) := by
      intro x _
      unfold square power
      split
      · trivial
      · exact hrange
    exact (Ends.mapM hsquare).bind fun _ _ => trivial

theorem priceChange_sized (period : Int) (hs : source.length = n) :
    Derived.Sized n (priceChange period source) := by
  have hshift := (@Column.length_shift _ source period).trans hs
  have hdiff : (source.diff period).length = n := (Column.sized_combine _ hs hshift).rows
  have hchange : (source.change period).length = n := (Column.sized_combine _ hs hshift).rows
  unfold priceChange
  refine ⟨by simp, ?_, by simp [length_percent, hdiff, hchange]⟩
  simp only [List.map]
  decide

end Indicator
end Flowline.Market
