import Mathlib.Algebra.Group.Nat.Defs
import Mathlib.Data.List.TakeDrop
import Mathlib.Data.List.TakeWhile
import Flowline.Decimal.Notation
import Flowline.Decimal.Reader

/-!
# Digits of natural numbers

Digits that are written for a number stand for the number, also behind zeros that fill a width.
-/
namespace Flowline

namespace Decimal

theorem natOfDigits_toDigits (n : Nat) : natOfDigits (Nat.toDigits 10 n) = n :=
  Nat.ofDigitChars_toDigits (by decide) (by decide)

theorem isDigit_toDigits {n : Nat} {c : Char} (h : c ∈ Nat.toDigits 10 n) : c.isDigit = true :=
  Nat.isDigit_of_mem_toDigits (by decide) (by decide) h

/-- A run of digits ends where no digit follows. -/
theorem spanDigits_run {ds rest : List Char} (h : ∀ c ∈ ds, c.isDigit = true)
    (hrest : ∀ c, rest.head? = some c → c.isDigit = false) : spanDigits (ds ++ rest) = (ds, rest) := by
  have hdrop : rest.dropWhile Char.isDigit = rest ∧ rest.takeWhile Char.isDigit = [] := by
    cases rest with
    | nil => exact ⟨rfl, rfl⟩
    | cons c rest => simp [hrest c rfl]
  rw [spanDigits, List.span_eq_takeWhile_dropWhile, List.takeWhile_append_of_pos h,
    List.dropWhile_append_of_pos h, hdrop.1, hdrop.2, List.append_nil]

theorem spanDigits_toDigits (n : Nat) : spanDigits (Nat.toDigits 10 n) = (Nat.toDigits 10 n, []) := by
  have hrun : spanDigits (Nat.toDigits 10 n ++ []) = (Nat.toDigits 10 n, []) :=
    spanDigits_run (fun _ => isDigit_toDigits) nofun
  rwa [List.append_nil] at hrun

end Decimal

/-! ### Numbers of a fixed width -/

theorem toList_padded (width n : Nat) : (padded width n).toList =
    List.replicate (width - (Nat.toDigits 10 n).length) '0' ++ Nat.toDigits 10 n := by
  rw [padded, String.toList_ofList, Nat.toString_eq_repr, Nat.toList_repr]

theorem isDigit_padded {width n : Nat} {c : Char} (h : c ∈ (padded width n).toList) :
    c.isDigit = true := by
  rw [toList_padded, List.mem_append] at h
  obtain h | h := h
  · rw [(List.mem_replicate.mp h).2]
    rfl
  · exact Decimal.isDigit_toDigits h

theorem length_padded {width n : Nat} (hwidth : 0 < width) (h : n < 10 ^ width) :
    (padded width n).toList.length = width := by
  have hlen := (Nat.length_toDigits_le_iff (b := 10) (by decide) hwidth).mpr h
  rw [toList_padded, List.length_append, List.length_replicate]
  omega

theorem natOfDigits_padded (width n : Nat) : Decimal.natOfDigits (padded width n).toList = n := by
  have hzeros : ∀ k, Decimal.natOfDigits (List.replicate k '0') = 0 := by
    intro k
    exact (Nat.ofDigitChars_replicate_zero (b := 10)).trans (Nat.mul_zero _)
  rw [toList_padded, Decimal.natOfDigits, List.foldl_append]
  exact (congrArg (fun k => (Nat.toDigits 10 n).foldl _ k) (hzeros _)).trans
    (Decimal.natOfDigits_toDigits n)

end Flowline
