import Flowline.Market.Indicator
import Flowline.Proofs.Data.Record

/-!
# Columns cut short

What is reckoned over the first rows of a column is what is reckoned over all of them, cut to these
rows: windows end at their row, exponential means carry only what came before, and a shift down
takes from the rows above. So it is with all indicators, but for a change of prices against rows
that come later.
-/
namespace Flowline.Market

/-! ### Reckonings that follow others -/

/-- Where the first reckoning gives something, the second one gives the same, cut short. -/
def Follows {ε α : Type} (cut : α → α) (x y : Except ε α) : Prop :=
  ∀ a, x = .ok a → y = .ok (cut a)

namespace Follows

variable {ε α β : Type} {cut : α → α} {cut' : β → β} {x y : Except ε α}

theorem ok (a : α) : Follows cut (.ok a : Except ε α) (.ok (cut a)) := by
  rintro _ ⟨⟩
  rfl

theorem bind {f g : α → Except ε β} (h : Follows cut x y)
    (hf : ∀ a, Follows cut' (f a) (g (cut a))) : Follows cut' (x >>= f) (y >>= g) := by
  intro b hb
  obtain ⟨a, ha, hfa⟩ := exists_of_bind_eq_ok hb
  rw [h a ha]
  exact hf a b hfa

/-- What both reckonings use alike is not cut. -/
theorem bind_same (x : Except ε α) {f g : α → Except ε β} (hf : ∀ a, Follows cut' (f a) (g a)) :
    Follows cut' (x >>= f) (x >>= g) := by
  have hsame : Follows id x x := fun _ ha => ha
  exact hsame.bind hf

/-- The first steps of a traversal do not wait for the others. -/
theorem mapM {f g : α → Except ε β} {xs : List α} {n : Nat} (h : ∀ a ∈ xs.take n, f a = g a) :
    Follows (List.take n) (xs.mapM f) ((xs.take n).mapM g) := by
  induction xs generalizing n with
  | nil => simp [Follows, pure, Except.pure]
  | cons a rest ih =>
    cases n with
    | zero => exact fun _ _ => rfl
    | succ n =>
      rw [List.take_succ_cons] at h ⊢
      obtain ⟨ha, hrest⟩ := List.forall_mem_cons.mp h
      rw [List.mapM_cons, List.mapM_cons, ha]
      refine bind_same (g a) fun b => (ih hrest).bind fun bs => ?_
      change Follows (List.take (n + 1)) (.ok (b :: bs)) (.ok ((b :: bs).take (n + 1)))
      exact ok _

end Follows

namespace Column

variable {α β γ : Type}

/-! ### Windows -/

/-- A window reaches to its row and no further. -/
theorem window_take (size : Int) (values : Column α) {i n : Nat} (hi : i < n) :
    window size (values.take n) i = window size values i := by
  rw [window, List.take_take, Nat.min_eq_left hi, window]

theorem rolling_take (size : Int) (reduce : List α → Except Fault (Option β)) (values : Column α)
    (n : Nat) :
    Follows (List.take n) (rolling size reduce values) (rolling size reduce (values.take n)) := by
  have hrows : List.range (values.take n).length = (List.range values.length).take n := by
    rw [List.length_take, List.take_range]
  unfold rolling
  rw [hrows]
  refine Follows.mapM fun i hi => ?_
  rw [List.take_range, List.mem_range] at hi
  rw [rollAt, rollAt, window_take size values (by omega)]

theorem combine_take (op : α → β → Option γ) (a : Column α) (b : Column β) (n : Nat) :
    (combine op a b).take n = combine op (a.take n) (b.take n) := List.take_zipWith

theorem combineM_take (op : α → β → Except Fault γ) (a : Column α) (b : Column β) (n : Nat) :
    Follows (List.take n) (combineM op a b) (combineM op (a.take n) (b.take n)) := by
  have hzip : (a.take n).zip (b.take n) = (a.zip b).take n := List.take_zipWith.symm
  unfold combineM
  rw [hzip]
  exact Follows.mapM fun _ _ => rfl

/-- Moved down, the first rows come from rows above. -/
theorem shift_take {k : Int} (hk : 0 ≤ k) (values : Column α) (n : Nat) :
    (values.shift k).take n = shift (values.take n) k := by
  unfold shift
  dsimp only
  rw [if_pos hk, if_pos hk, List.length_take, List.take_append, List.length_replicate,
    List.take_replicate, List.take_take, List.take_take]
  congr 2
  · omega
  · omega

section
variable [Arithmetic α]
open Arithmetic

theorem diff_take {k : Int} (hk : 0 ≤ k) (values : Column α) (n : Nat) :
    (values.diff k).take n = diff (values.take n) k := by
  rw [diff, combine_take, shift_take hk, diff]

theorem change_take {k : Int} (hk : 0 ≤ k) (values : Column α) (n : Nat) :
    (values.change k).take n = change (values.take n) k := by
  rw [change, combine_take, shift_take hk, change]

/-- What is carried on comes from the rows before. -/
theorem smoothFrom_take (keep : α) (s : Smoothing α) (values : Column α) (n : Nat) :
    Follows (List.take n) (smoothFrom keep s values) (smoothFrom keep s (values.take n)) := by
  induction values generalizing s n with
  | nil => simp [Follows, smoothFrom]
  | cons v rest ih =>
    cases n with
    | zero => exact fun _ _ => rfl
    | succ n =>
      rw [List.take_succ_cons, smoothFrom, smoothFrom]
      refine Follows.bind_same _ fun s' => (ih s' n).bind fun c => ?_
      change Follows (List.take (n + 1)) (.ok (s'.last :: c)) (.ok ((s'.last :: c).take (n + 1)))
      exact Follows.ok _

theorem smooth_take (span : Int) (values : Column α) (n : Nat) :
    Follows (List.take n) (values.smooth span) (smooth span (values.take n)) := by
  unfold smooth
  exact Follows.bind_same _ fun _ => Follows.bind_same _ fun _ => smoothFrom_take _ _ _ _

end

end Column

/-! ### Indicators -/

/-- The columns, cut to their first rows. -/
def Derived.take (n : Nat) (d : Derived α) : Derived α := d.map (Prod.map id (List.take n))

namespace Indicator

variable {α : Type} [Arithmetic α] (source : Column α) (n : Nat) {p p' : Prices α}
open Arithmetic

theorem average_take (size : Int) :
    Follows (List.take n) (Column.average size source) (Column.average size (source.take n)) :=
  Column.rolling_take size _ source n

theorem minus_take (a b : Column α) : (minus a b).take n = minus (a.take n) (b.take n) :=
  Column.combine_take _ a b n

theorem percent_take : (percent source).take n = percent (source.take n) := List.map_take.symm

theorem sma_take (period : Int) :
    Follows (Derived.take n) (sma period source) (sma period (source.take n)) := by
  unfold sma
  exact (average_take source n period).bind fun _ => Follows.ok _

theorem ema_take (span : Int) :
    Follows (Derived.take n) (ema span source) (ema span (source.take n)) := by
  unfold ema
  exact (Column.smooth_take span source n).bind fun _ => Follows.ok _

theorem rsi_take (period : Int) :
    Follows (Derived.take n) (rsi period source) (rsi period (source.take n)) := by
  have hpart : ∀ f : α → α,
      Follows (List.take n) (Column.average period ((source.diff 1).map fun d => d.map f))
        (Column.average period ((Column.diff (source.take n) 1).map fun d => d.map f)) := by
    intro f
    rw [← Column.diff_take (by decide), List.map_take]
    exact average_take _ n period
  unfold rsi
  refine (hpart fun d => larger d zero).bind fun gains => ?_
  refine (hpart fun d => larger (-d) zero).bind fun losses => ?_
  exact (Column.combineM_take strength gains losses n).bind fun _ => Follows.ok _

theorem macd_take (fast slow signal : Except Fault Int) :
    Follows (Derived.take n) (macd fast slow signal source)
      (macd fast slow signal (source.take n)) := by
  unfold macd
  refine Follows.bind_same fast fun f => (Column.smooth_take f source n).bind fun a => ?_
  refine Follows.bind_same slow fun s => (Column.smooth_take s source n).bind fun b => ?_
  rw [← minus_take]
  refine Follows.bind_same signal fun g => (Column.smooth_take g _ n).bind fun c => ?_
  rw [← minus_take]
  exact Follows.ok _

theorem bands_take (period : Int) (width : α) :
    Follows (Derived.take n) (bands period width source)
      (bands period width (source.take n)) := by
  unfold bands
  refine (average_take source n period).bind fun middle => ?_
  refine (Column.rolling_take period deviation? source n).bind fun spread => ?_
  simp only [← Column.combine_take, ← minus_take]
  exact Follows.ok _

theorem zip_take {β γ : Type} (xs : List β) (ys : List γ) :
    (xs.zip ys).take n = (xs.take n).zip (ys.take n) := List.take_zipWith

theorem atr_take (hhigh : p'.high = p.high.take n) (hlow : p'.low = p.low.take n)
    (hclose : p'.close = p.close.take n) (period : Int) :
    Follows (Derived.take n) (atr period p) (atr period p') := by
  unfold atr
  rw [hhigh, hlow, hclose]
  dsimp only
  rw [← Column.shift_take (by decide), ← zip_take, ← zip_take, List.map_take]
  exact (average_take _ n period).bind fun _ => Follows.ok _

theorem stochastic_take (hhigh : p'.high = p.high.take n) (hlow : p'.low = p.low.take n)
    (hclose : p'.close = p.close.take n) (period smoothing : Int) :
    Follows (Derived.take n) (stochastic period smoothing p)
      (stochastic period smoothing p') := by
  unfold stochastic
  rw [hhigh, hlow, hclose]
  refine (Column.rolling_take period _ p.low n).bind fun lowest => ?_
  refine (Column.rolling_take period _ p.high n).bind fun highest => ?_
  dsimp only
  rw [← minus_take, ← minus_take, List.map_take, ← Column.combine_take]
  exact (average_take _ n smoothing).bind fun _ => Follows.ok _

theorem volumeSma_take (hvolume : p'.volume = p.volume.take n) (period : Int) :
    Follows (Derived.take n) (volumeSma period p) (volumeSma period p') := by
  unfold volumeSma
  rw [hvolume]
  refine (average_take p.volume n period).bind fun average => ?_
  rw [← Column.combine_take]
  exact Follows.ok _

theorem priceChange_take {period : Int} (h : 0 ≤ period) :
    (priceChange period source).take n = priceChange period (source.take n) := by
  unfold priceChange Derived.take
  simp [Column.diff_take h, Column.change_take h, percent_take]

theorem volatility_take (hhigh : p'.high = p.high.take n) (hlow : p'.low = p.low.take n)
    (hclose : p'.close = p.close.take n) (period : Int) :
    Follows (Derived.take n) (volatility period source p)
      (volatility period (source.take n) p') := by
  unfold volatility
  rw [hhigh, hlow, hclose]
  dsimp only
  rw [← minus_take, ← percent_take, ← Column.combine_take, ← Column.change_take (by decide)]
  refine (Column.rolling_take period deviation? _ n).bind fun deviation => ?_
  rw [← percent_take]
  exact Follows.ok _

end Indicator
end Flowline.Market
