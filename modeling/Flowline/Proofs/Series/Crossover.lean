import Mathlib
import Flowline.Proofs.Series.Causal

/-!
# Signals at crossings

A signal is set in a row where the fast series is above the slow one and was not above it in the row
before, or the other way round. Where two entries cannot be compared, because there is no such row,
because one of them is missing or because one is not a number, the fast one counts as not above. A
signal beside such a gap is no crossing, and every other signal is one.
-/
namespace Flowline

/-! ### The order of floats -/

section Order

open Float.Model Float.Model.UnpackedFloat

/-- How two floats compare; what is not a number compares with nothing. -/
def order? (x y : Float) : Option Ordering := x.toModel.unpack.compare y.toModel.unpack

variable {x y : Float}

theorem float_lt_iff : x < y ↔ order? x y = some .lt := decide_eq_true_iff.trans beq_iff_eq

theorem float_le_iff_any : x ≤ y ↔ (order? x y).any (·.isLE) = true := decide_eq_true_iff

theorem float_beq_iff : (x == y) = true ↔ order? x y = some .eq :=
  beq_iff_eq (a := order? x y) (b := some .eq)

theorem compare_swap (u v : UnpackedFloat) : (u.compare v).map Ordering.swap = v.compare u := by
  have hsign : ∀ s t : Sign, (compare s t).swap = compare t s := by decide
  have hdigits : ∀ (m n : Nat) (e f : Int), ((compare e f).then (compare m n)).swap =
      (compare f e).then (compare n m) := fun m n e f => by
    rw [Ordering.swap_then, ← Std.OrientedOrd.eq_swap, ← Std.OrientedOrd.eq_swap]
  cases u with
  | notANumber => cases v <;> simp [UnpackedFloat.compare]
  | infinity s => cases s <;> cases v <;> simp [UnpackedFloat.compare, hsign]
  | zero s => rcases v with (_ | _) | _ | _ | (_ | _) <;> simp [UnpackedFloat.compare]
  | finite s m e h =>
    rcases v with (_ | _) | _ | _ | (_ | _) <;> cases s <;> simp [UnpackedFloat.compare, hdigits]

theorem order?_swap (x y : Float) : (order? x y).map Ordering.swap = order? y x := compare_swap _ _

theorem compare_eq_none_iff {u v : UnpackedFloat} :
    u.compare v = none ↔ u = .notANumber ∨ v = .notANumber := by
  fun_cases UnpackedFloat.compare u v <;> simp_all

theorem unpack_eq_notANumber_iff : x.toModel.unpack = .notANumber ↔ x = Float.nan := by
  rw [← isNaN_iff, ← decide_eq_true_iff (p := x = Float.nan), ← Float.isNaN_eq_decide_eq_nan]
  rfl

theorem order?_eq_none_iff : order? x y = none ↔ x = Float.nan ∨ y = Float.nan := by
  rw [order?, compare_eq_none_iff, unpack_eq_notANumber_iff, unpack_eq_notANumber_iff]

theorem float_le_iff : x ≤ y ↔ x < y ∨ (x == y) = true := by
  rw [float_le_iff_any, float_lt_iff, float_beq_iff]
  cases order? x y with
  | none => simp
  | some o => cases o <;> simp

/-- Two numbers are in one of the two orders. -/
theorem float_not_le_iff (h : order? x y ≠ none) : ¬ x ≤ y ↔ x > y := by
  rw [float_le_iff_any, gt_iff_lt, float_lt_iff, ← order?_swap x y]
  obtain ⟨o, ho⟩ := Option.ne_none_iff_exists'.mp h
  rw [ho]
  cases o <;> simp

theorem order?_ne_none_of_le (h : x ≤ y) : order? x y ≠ none := by
  intro hnone
  rw [float_le_iff_any, hnone] at h
  cases h

end Order

namespace Series

variable {buy sell : Float} {fast slow : Series} {i : Nat}

/-! ### Rows of two series -/

/-- The entry in a row; where there is no such row there is none. -/
def entry (values : Series) (i : Nat) : Option Float := values.getD i none

/-- In this row both series have an entry, and the entries are related so. -/
def InRow (R : Float → Float → Prop) (fast slow : Series) (i : Nat) : Prop :=
  ∃ f s, entry fast i = some f ∧ entry slow i = some s ∧ R f s

/-- This row does not have two numbers: an entry is missing or is not a number. -/
def Gap (fast slow : Series) (i : Nat) : Prop :=
  ∀ f s, entry fast i = some f → entry slow i = some s → f = Float.nan ∨ s = Float.nan

/-- It holds of the row before, if there is one. -/
def Before (P : Nat → Prop) (i : Nat) : Prop := ∃ j, j + 1 = i ∧ P j

theorem not_gap_iff : ¬ Gap fast slow i ↔ InRow (fun f s => order? f s ≠ none) fast slow i := by
  simp only [Gap, InRow, ne_eq, order?_eq_none_iff, not_forall]
  exact exists₂_congr fun f s => by rw [exists_prop, exists_prop]

theorem InRow.mono {R S : Float → Float → Prop} (h : InRow R fast slow i)
    (hRS : ∀ f s, R f s → S f s) : InRow S fast slow i := by
  obtain ⟨f, s, hf, hs, hR⟩ := h
  exact ⟨f, s, hf, hs, hRS f s hR⟩

/-- Where the fast series is not above, it is below or level exactly if there is no gap. -/
theorem inRow_le_iff (h : ¬ InRow (· > ·) fast slow i) :
    InRow (· ≤ ·) fast slow i ↔ ¬ Gap fast slow i := by
  rw [not_gap_iff]
  refine ⟨fun hle => hle.mono fun f s => order?_ne_none_of_le, fun hnumbers => ?_⟩
  obtain ⟨f, s, hf, hs, hfs⟩ := hnumbers
  refine ⟨f, s, hf, hs, ?_⟩
  by_contra hle
  exact h ⟨f, s, hf, hs, (float_not_le_iff hfs).mp hle⟩

/-! ### What a signal stands for -/

/-- The fast series ends up above the slow one, having been below or level. -/
def Rises (fast slow : Series) (i : Nat) : Prop :=
  InRow (· > ·) fast slow i ∧ Before (InRow (· ≤ ·) fast slow) i

/-- The fast series ends up below the slow one or level, having been above. -/
def Falls (fast slow : Series) (i : Nat) : Prop :=
  InRow (fun f s => f < s ∨ (f == s) = true) fast slow i ∧ Before (InRow (· > ·) fast slow) i

/-- The signal stands at a crossing, if it is one to buy or to sell. -/
def Marks (fast slow : Series) (i : Nat) (signal : Float) : Prop :=
  (signal = 1.0 → Rises fast slow i) ∧ (signal = -1.0 → Falls fast slow i)

/-- The signal stands beside a gap: it buys after a row without two numbers, the one before the
first row included, or sells in such a row. -/
def Overlooks (fast slow : Series) (i : Nat) (signal : Float) : Prop :=
  signal = 1.0 ∧ (∀ j, j + 1 = i → Gap fast slow j) ∨ signal = -1.0 ∧ Gap fast slow i

/-- What thresholds are compared with; two entries without a distance have none. -/
def strengthAt (fast slow : Series) (i : Nat) : Float :=
  ((distance? (entry fast i) (entry slow i)).map Float.abs).getD 0.0

/-- To buy, to sell, or neither. -/
def IsSignal (s : Float) : Prop := s = 1.0 ∨ s = -1.0 ∨ s = 0.0

/-- When there is which signal in a row. -/
structure Tells (buy sell : Float) (fast slow : Series) (i : Nat) (signal : Float) : Prop where
  buys : signal = 1.0 ↔ InRow (· > ·) fast slow i ∧ ¬ Before (InRow (· > ·) fast slow) i ∧
    buy ≤ strengthAt fast slow i
  sells : signal = -1.0 ↔ ¬ InRow (· > ·) fast slow i ∧ Before (InRow (· > ·) fast slow) i ∧
    sell ≤ strengthAt fast slow i
  signal : IsSignal signal

/-- Apart from a gap beside it a signal stands at a crossing. -/
theorem Tells.marks_iff {signal : Float} (h : Tells buy sell fast slow i signal) :
    Marks fast slow i signal ↔ ¬ Overlooks fast slow i signal := by
  have hbuy : signal = 1.0 →
      (Rises fast slow i ↔ ¬ ∀ j, j + 1 = i → Gap fast slow j) := fun hsignal => by
    obtain ⟨habove, hbefore, -⟩ := h.buys.mp hsignal
    simp only [Rises, habove, true_and, Before, not_forall, exists_prop]
    refine exists_congr fun j => and_congr_right fun hj => inRow_le_iff fun hwas => ?_
    exact hbefore ⟨j, hj, hwas⟩
  have hsell : signal = -1.0 → (Falls fast slow i ↔ ¬ Gap fast slow i) := fun hsignal => by
    obtain ⟨hnot, hbefore, -⟩ := h.sells.mp hsignal
    simp only [Falls, ← float_le_iff]
    rw [and_iff_left hbefore, inRow_le_iff hnot]
  rw [Overlooks, not_or, not_and, not_and]
  exact and_congr (forall_congr' hbuy) (forall_congr' hsell)

/-! ### The signals of two series -/

theorem above_iff {f s : Option Float} :
    above f s = true ↔ ∃ x y, f = some x ∧ s = some y ∧ x > y := by
  cases f with
  | none => simp [above]
  | some x => cases s <;> simp [above]

/-- Whether the fast series was above in the row before; `wasAbove` stands for the one before the
first row. -/
def aboveBefore (wasAbove : Bool) (fast slow : Series) : Nat → Bool
  | 0 => wasAbove
  | j + 1 => above (entry fast j) (entry slow j)

theorem aboveBefore_iff :
    aboveBefore false fast slow i = true ↔ Before (InRow (· > ·) fast slow) i := by
  cases i with
  | zero => simp [aboveBefore, Before]
  | succ j => simp [aboveBefore, Before, above_iff, InRow]

theorem length_crossings (h : fast.length = slow.length) :
    (crossings buy sell fast slow).length = fast.length := by
  have hfrom : ∀ (fast slow : Series) (wasAbove : Bool), fast.length = slow.length →
      (crossingsFrom buy sell wasAbove fast slow).length = fast.length := by
    intro fast
    induction fast with
    | nil => exact fun _ _ _ => rfl
    | cons f fast ih =>
      intro slow wasAbove h
      cases slow with
      | nil => cases h
      | cons s slow => exact congrArg (· + 1) (ih slow _ (Nat.succ.inj h))
  exact hfrom fast slow false h

theorem getElem?_crossingsFrom (wasAbove : Bool) (h : fast.length = slow.length)
    (hi : i < fast.length) : (crossingsFrom buy sell wasAbove fast slow)[i]? = some (crossing buy
      sell (aboveBefore wasAbove fast slow i) (entry fast i) (entry slow i)) := by
  induction fast generalizing slow wasAbove i with
  | nil => cases hi
  | cons f fast ih =>
    cases slow with
    | nil => cases h
    | cons s slow =>
      cases i with
      | zero => rfl
      | succ j =>
        have hrest := ih (above f s) (Nat.succ.inj h) (Nat.lt_of_succ_lt_succ hi)
        rw [crossingsFrom, List.getElem?_cons_succ, hrest]
        cases j <;> rfl

theorem tells_crossing (buy sell : Float) (fast slow : Series) (i : Nat) :
    Tells buy sell fast slow i
      (crossing buy sell (aboveBefore false fast slow i) (entry fast i) (entry slow i)) := by
  have hdistinct : (1.0 : Float) ≠ -1.0 ∧ (1.0 : Float) ≠ 0.0 ∧ (-1.0 : Float) ≠ 0.0 := by
    decide +kernel
  have habove : InRow (· > ·) fast slow i ↔ above (entry fast i) (entry slow i) = true :=
    above_iff.symm
  unfold crossing
  constructor
  · rw [← aboveBefore_iff, habove, strengthAt]
    grind
  · rw [← aboveBefore_iff, habove, strengthAt]
    grind
  · grind [IsSignal]

theorem isSignal_crossings (h : fast.length = slow.length) :
    ∀ s ∈ crossings buy sell fast slow, IsSignal s := by
  intro s hs
  obtain ⟨i, hi⟩ := List.getElem?_of_mem hs
  have hlt : i < fast.length := length_crossings h ▸ (List.getElem?_eq_some_iff.mp hi).1
  obtain rfl := Option.some.inj (hi.symm.trans (getElem?_crossingsFrom false h hlt))
  exact (tells_crossing buy sell fast slow i).signal

/-- Every row of two series has a signal, which stands at a crossing exactly unless there is a gap
beside it. -/
theorem crossings_mark_unless_overlooked (buy sell : Float) (h : fast.length = slow.length) :
    (crossings buy sell fast slow).length = fast.length ∧
      ∀ i < fast.length, ∃ signal, (crossings buy sell fast slow)[i]? = some signal ∧
        Tells buy sell fast slow i signal ∧
        (Marks fast slow i signal ↔ ¬ Overlooks fast slow i signal) := by
  refine ⟨length_crossings h, fun i hi => ?_⟩
  have htells := tells_crossing buy sell fast slow i
  exact ⟨_, getElem?_crossingsFrom false h hi, htells, htells.marks_iff⟩

/-- A series that rises above the level of another one and falls back. -/
def risingSeries : Series := [some 1.0, some 3.0, some 4.0, some 1.0]

def levelSeries (n : Nat) (level : Float) : Series := List.replicate n (some level)

theorem risingSeries_marked :
    risingSeries.length = (levelSeries 4 2.0).length ∧
      crossings 10.0 5.0 risingSeries (levelSeries 4 2.0) = [0.0, 1.0, 0.0, -1.0] ∧
      Rises risingSeries (levelSeries 4 2.0) 1 ∧ Falls risingSeries (levelSeries 4 2.0) 3 := by
  have hlength : risingSeries.length = (levelSeries 4 2.0).length := List.length_replicate.symm
  have hsignals : crossings 10.0 5.0 risingSeries (levelSeries 4 2.0) = [0.0, 1.0, 0.0, -1.0] := by
    decide +kernel
  obtain ⟨-, hrows⟩ := crossings_mark_unless_overlooked 10.0 5.0 hlength
  obtain ⟨up, hup, -, hmarks⟩ := hrows 1 (by decide)
  obtain ⟨down, hdown, -, hmarks'⟩ := hrows 3 (by decide)
  rw [hsignals] at hup hdown
  have hup : up = 1.0 := (Option.some.inj hup).symm
  have hdown : down = -1.0 := (Option.some.inj hdown).symm
  have hnumbers : (1.0 : Float) ≠ Float.nan ∧ (2.0 : Float) ≠ Float.nan ∧
      (1.0 : Float) ≠ -1.0 := by decide +kernel
  refine ⟨hlength, hsignals, (hmarks.mpr ?_).1 hup, (hmarks'.mpr ?_).2 hdown⟩
  · rintro (⟨-, hgap⟩ | ⟨heq, -⟩)
    · exact (hgap 0 rfl 1.0 2.0 rfl rfl).elim hnumbers.1 hnumbers.2.1
    · exact hnumbers.2.2 (hup.symm.trans heq)
  · rintro (⟨heq, -⟩ | ⟨-, hgap⟩)
    · exact hnumbers.2.2 (heq.symm.trans hdown)
    · exact (hgap 1.0 2.0 rfl rfl).elim hnumbers.1 hnumbers.2.1

/-- The first row, a gap and what comes after a gap have signals, which stand at no crossing. -/
theorem gaps_signalled :
    crossings 0.0 0.0 [some 2.0, none, some 2.0] (levelSeries 3 1.0) = [1.0, -1.0, 1.0] ∧
      ¬ Marks [some 2.0, none, some 2.0] (levelSeries 3 1.0) 0 1.0 ∧
      ¬ Marks [some 2.0, none, some 2.0] (levelSeries 3 1.0) 1 (-1.0) ∧
      ¬ Marks [some 2.0, none, some 2.0] (levelSeries 3 1.0) 2 1.0 := by
  refine ⟨by decide +kernel, fun h => ?_, fun h => ?_, fun h => ?_⟩
  · obtain ⟨-, j, hj, -⟩ := h.1 rfl
    cases hj
  · obtain ⟨⟨f, s, hf, -⟩, -⟩ := h.2 rfl
    cases hf
  · obtain ⟨-, j, hj, f, s, hf, -⟩ := h.1 rfl
    obtain rfl : j = 1 := Nat.succ.inj hj
    cases hf

/-! ### Confirmed signals, and the position after them -/

theorem length_confirmed (periods : Nat) (signals : List Float)
    (pairs : List (Option Float × Option Float)) :
    (confirmed periods signals pairs).length = signals.length := by
  fun_induction confirmed periods signals pairs with
  | case1 signal signals _ pairs _ ih => simpa using ih
  | case2 => rfl

/-- Confirmation takes signals away and adds none. -/
theorem isSignal_confirmed {periods : Nat} {signals : List Float}
    {pairs : List (Option Float × Option Float)} (h : ∀ s ∈ signals, IsSignal s) :
    ∀ s ∈ confirmed periods signals pairs, IsSignal s := by
  fun_induction confirmed periods signals pairs with
  | case1 signal signals _ pairs following ih =>
    rw [List.forall_mem_cons] at h ⊢
    refine ⟨?_, ih h.2⟩
    split
    · exact .inr (.inr rfl)
    · exact h.1
  | case2 => exact h

def sign (s : Float) : Float := if s > 0.0 then 1.0 else if s < 0.0 then -1.0 else 0.0

/-- The sign of the last of the signals that is not zero; zero if there is none. -/
def lastSign (signals : List Float) : Float :=
  ((signals.filter (· != 0.0)).getLast?.map sign).getD 0.0

/-- The position after one more signal. -/
def hold (held s : Float) : Float := if s > 0.0 then 1.0 else if s < 0.0 then -1.0 else held

theorem hold_signal {s : Float} (h : IsSignal s) (held : Float) :
    hold held s = if s != 0.0 then sign s else held := by
  obtain rfl | rfl | rfl := h <;> rfl

theorem foldl_hold {signals : List Float} (h : ∀ s ∈ signals, IsSignal s) :
    signals.foldl hold 0.0 = lastSign signals := by
  induction signals using List.reverseRecOn with
  | nil => rfl
  | append_singleton signals s ih =>
    rw [List.forall_mem_append, List.forall_mem_singleton] at h
    rw [List.foldl_append, List.foldl_cons, List.foldl_nil, hold_signal h.2, ih h.1, lastSign,
      lastSign, List.filter_append]
    cases hs : s != 0.0 <;> simp [hs]

theorem positions_eq (held : Float) (signals : List Float) : positions held signals =
    (List.range signals.length).map fun k => (signals.take (k + 1)).foldl hold held := by
  induction signals generalizing held with
  | nil => rfl
  | cons s signals ih =>
    rw [List.length_cons, List.range_succ_eq_map, List.map_cons, List.map_map, positions, ih]
    rfl

theorem isSignal_lastSign (signals : List Float) : IsSignal (lastSign signals) := by
  unfold lastSign
  cases (signals.filter (· != 0.0)).getLast? with
  | none => exact .inr (.inr rfl)
  | some s => grind [sign, IsSignal]

/-- The position has the sign of the latest signal. -/
theorem positions_signals {signals : List Float} (h : ∀ s ∈ signals, IsSignal s) :
    positions 0.0 signals =
      (List.range signals.length).map fun k => lastSign (signals.take (k + 1)) := by
  rw [positions_eq]
  exact List.map_congr_left fun k _ => foldl_hold fun s hs => h s (List.mem_of_mem_take hs)

theorem isSignal_positions {signals : List Float} (h : ∀ s ∈ signals, IsSignal s) :
    ∀ s ∈ positions 0.0 signals, IsSignal s := by
  rw [positions_signals h, List.forall_mem_map]
  exact fun k _ => isSignal_lastSign _

end Series
end Flowline
