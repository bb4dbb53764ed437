import Mathlib.Data.List.Basic
import Flowline.Series.Crossover
import Flowline.Series.Indicator

/-! No entry of an indicator depends on a later entry of the series.

Nothing here looks into an operation on numbers: the indicators are built from a few operations on
series, each of which keeps an entry as it is when more entries come after it. -/
namespace Flowline.Series

/-- There is one entry for each that is read, and it stays as it is when more are read. -/
structure Causal {α β : Type} (f : List α → List β) : Prop where
  length (xs : List α) : (f xs).length = xs.length
  take (xs ys : List α) : (f (xs ++ ys)).take xs.length = f xs

namespace Causal

variable {α β γ δ σ : Type} {f : List α → List β} {g : List α → List γ}

theorem map (h : β → γ) (hf : Causal f) : Causal fun xs => (f xs).map h where
  length xs := by rw [List.length_map, hf.length]
  take xs ys := by rw [← List.map_take, hf.take]

theorem zipWith (op : β → γ → δ) (hf : Causal f) (hg : Causal g) :
    Causal fun xs => (f xs).zipWith op (g xs) where
  length xs := by rw [List.length_zipWith, hf.length, hg.length, Nat.min_self]
  take xs ys := by rw [List.take_zipWith, hf.take, hg.take]

/-- What is left of `f (xs ++ ys)` beyond its first entries does not reach those of `g`. -/
theorem comp {g : List β → List γ} (hg : Causal g) (hf : Causal f) :
    Causal fun xs => g (f xs) where
  length xs := by rw [hg.length, hf.length]
  take xs ys := by
    have split : f (xs ++ ys) = f xs ++ (f (xs ++ ys)).drop xs.length := by
      rw [← hf.take xs ys, List.take_append_drop]
    calc (g (f (xs ++ ys))).take xs.length
        = (g (f xs ++ (f (xs ++ ys)).drop xs.length)).take (f xs).length := by
          rw [← split, hf.length]
      _ = g (f xs) := hg.take ..

protected theorem id : Causal fun xs : List α => xs where
  length _ := rfl
  take _ _ := List.take_left

/-- A pass from left to right that carries a state and leaves an entry at every step. -/
theorem of_step {f : σ → List α → List β} (out : σ → α → β) (next : σ → α → σ)
    (nil : ∀ s, f s [] = [])
    (cons : ∀ s x xs, f s (x :: xs) = out s x :: f (next s x) xs) (s : σ) : Causal (f s) where
  length xs := by
    induction xs generalizing s with
    | nil => rw [nil, List.length_nil, List.length_nil]
    | cons x xs ih => rw [cons, List.length_cons, List.length_cons, ih]
  take xs ys := by
    induction xs generalizing s with
    | nil => rw [nil, List.length_nil, List.take_zero]
    | cons x xs ih =>
      rw [List.cons_append, cons, cons, List.length_cons, List.take_succ_cons, ih]

end Causal

/-- The same for a function of two series with as many entries. -/
structure CausalPair {α β γ : Type} (f : List α → List β → List γ) : Prop where
  length (xs : List α) (zs : List β) : xs.length = zs.length → (f xs zs).length = xs.length
  take (xs xs' : List α) (zs zs' : List β) : xs.length = zs.length → xs'.length = zs'.length →
    (f (xs ++ xs') (zs ++ zs')).take xs.length = f xs zs

/-- Two series with as many entries are one series of pairs. -/
theorem Causal.pair {α β γ : Type} {f : List α → List β → List γ}
    (hf : Causal fun rows => f (rows.map Prod.fst) (rows.map Prod.snd)) : CausalPair f where
  length xs zs h := by
    have rows := hf.length (xs.zip zs)
    rwa [List.map_fst_zip (Nat.le_of_eq h), List.map_snd_zip (Nat.le_of_eq h.symm),
      List.length_zip, ← h, Nat.min_self] at rows
  take xs xs' zs zs' h h' := by
    have rows := hf.take (xs.zip zs) (xs'.zip zs')
    rwa [← List.zip_append h, List.map_fst_zip (by simp [h, h']), List.map_snd_zip (by simp [h, h']),
      List.map_fst_zip (Nat.le_of_eq h), List.map_snd_zip (Nat.le_of_eq h.symm),
      List.length_zip, ← h, Nat.min_self] at rows

/-! ### Windows -/

/-- A window ends at its place, so later entries are not in it. -/
theorem window?_append {α : Type} (period : Nat) (xs ys : List (Option α)) {i : Nat}
    (hi : i < xs.length) : window? period (xs ++ ys) i = window? period xs i := by
  unfold window?
  split
  · rfl
  · next h =>
    have inside : period ≤ (xs.drop (i + 1 - period)).length := by
      rw [List.length_drop]; omega
    rw [List.drop_append_of_le_length (by omega), List.take_append_of_le_length inside]

theorem causal_rolling {α β : Type} (period : Nat) (f : List α → Option β) :
    Causal (rolling period f) where
  length values := by rw [rolling, List.length_map, List.length_range]
  take xs ys := by
    unfold rolling
    rw [← List.map_take, List.take_range, List.length_append, Nat.min_eq_left (by omega)]
    refine List.map_congr_left fun i hi => ?_
    rw [window?_append period xs ys (List.mem_range.mp hi)]

theorem causal_sma (period : Nat) : Causal (sma period) := causal_rolling ..

@[simp] theorem length_sma (period : Nat) (values : Series) :
    (sma period values).length = values.length := (causal_sma period).length values

/-! ### Averages that carry their last value -/

theorem causal_smoothed (alpha : Float) (prev : Option Float) : Causal (smoothed alpha prev) :=
  .of_step (smooth alpha) (smooth alpha) (fun _ => rfl) (fun _ _ _ => rfl) prev

theorem causal_ema (period : Nat) : Causal (ema period) := causal_smoothed ..

@[simp] theorem length_ema (period : Nat) (values : Series) :
    (ema period values).length = values.length := (causal_ema period).length values

theorem causal_difference {f g : Series → Series} (hf : Causal f) (hg : Causal g) :
    Causal fun values => difference (f values) (g values) := hf.zipWith _ hg

theorem causal_line (fast slow signal : Nat) :
    Causal fun values => (macd fast slow signal values).line :=
  causal_difference (causal_ema fast) (causal_ema slow)

theorem causal_signal (fast slow signal : Nat) :
    Causal fun values => (macd fast slow signal values).signal :=
  (causal_ema signal).comp (causal_line fast slow signal)

theorem causal_histogram (fast slow signal : Nat) :
    Causal fun values => (macd fast slow signal values).histogram :=
  causal_difference (causal_line fast slow signal) (causal_signal fast slow signal)

theorem length_macd (fast slow signal : Nat) (values : Series) :
    (macd fast slow signal values).line.length = values.length ∧
      (macd fast slow signal values).signal.length = values.length ∧
      (macd fast slow signal values).histogram.length = values.length :=
  ⟨(causal_line fast slow signal).length values, (causal_signal fast slow signal).length values,
    (causal_histogram fast slow signal).length values⟩

/-! ### The strength of a series -/

/-- The entry before is the state that is carried. -/
theorem causal_changes : Causal changes :=
  .of_step (f := fun prev values => (prev :: values).zipWith _ values) _ (fun _ value => value)
    (fun _ => rfl) (fun _ _ _ => rfl) none

theorem causal_rsi (period : Nat) : Causal (rsi period) :=
  .zipWith strength ((causal_sma period).comp (causal_changes.map _))
    ((causal_sma period).comp (causal_changes.map _))

@[simp] theorem length_rsi (period : Nat) (values : Series) :
    (rsi period values).length = values.length := (causal_rsi period).length values

/-! ### Bands -/

theorem causal_band (op : Option Float → Option Float → Option Float) (period : Nat) :
    Causal fun values => (sma period values).zipWith op (rolling period deviation? values) :=
  (causal_sma period).zipWith op (causal_rolling period deviation?)

theorem causal_percent (period : Nat) (width : Float) :
    Causal fun values => (bollinger period width values).percent :=
  Causal.id.zipWith _ ((causal_band _ period).zipWith Prod.mk (causal_band _ period))

theorem length_bollinger (period : Nat) (width : Float) (values : Series) :
    (bollinger period width values).middle.length = values.length ∧
      (bollinger period width values).upper.length = values.length ∧
      (bollinger period width values).lower.length = values.length ∧
      (bollinger period width values).percent.length = values.length :=
  ⟨length_sma period values, (causal_band _ period).length values,
    (causal_band _ period).length values, (causal_percent period width).length values⟩

/-! ### Crossings -/

/-- Whether the fast series was above the slow one is the state that is carried. -/
theorem causal_crossings (buy sell : Float) :
    Causal fun rows => crossings buy sell (rows.map Prod.fst) (rows.map Prod.snd) :=
  .of_step (f := fun wasAbove rows =>
      crossingsFrom buy sell wasAbove (rows.map Prod.fst) (rows.map Prod.snd))
    (fun wasAbove row => crossing buy sell wasAbove row.1 row.2) (fun _ row => above row.1 row.2)
    (fun _ => rfl) (fun _ _ _ => rfl) false

theorem causal_positions (held : Float) : Causal (positions held) :=
  .of_step _ (fun held s => if s > 0.0 then 1.0 else if s < 0.0 then -1.0 else held)
    (fun _ => rfl) (fun _ _ _ => rfl) held

/-- Nothing looks ahead: more entries after a series leave every indicator of its entries as it
was, and so with the signals of two series and the positions that follow them. What `confirmed`
keeps of the signals is left out, since it is there to look at later entries. -/
theorem no_lookahead :
    (∀ period, Causal (sma period) ∧ Causal (ema period) ∧ Causal (rsi period)) ∧
    (∀ fast slow signal, Causal (fun values => (macd fast slow signal values).line) ∧
      Causal (fun values => (macd fast slow signal values).signal) ∧
      Causal (fun values => (macd fast slow signal values).histogram)) ∧
    (∀ period width, Causal (fun values => (bollinger period width values).middle) ∧
      Causal (fun values => (bollinger period width values).upper) ∧
      Causal (fun values => (bollinger period width values).lower) ∧
      Causal (fun values => (bollinger period width values).percent)) ∧
    ∀ buy sell, CausalPair (crossings buy sell) ∧
      CausalPair (fun fast slow => positions 0.0 (crossings buy sell fast slow)) := by
  refine ⟨fun period => ⟨causal_sma period, causal_ema period, causal_rsi period⟩,
    fun fast slow signal => ⟨causal_line fast slow signal, causal_signal fast slow signal,
      causal_histogram fast slow signal⟩,
    fun period width => ⟨causal_sma period, causal_band _ period, causal_band _ period,
      causal_percent period width⟩,
    fun buy sell => ⟨(causal_crossings buy sell).pair, ?_⟩⟩
  exact ((causal_positions 0.0).comp (causal_crossings buy sell)).pair

end Flowline.Series
