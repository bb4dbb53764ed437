import Flowline.Proofs.Data.Record
import Flowline.Proofs.Market.Wish

/-!
# The shape of features

What a feature adds, if it adds anything, has its own endings and a cell for each row.
-/
namespace Flowline.Market

namespace Column

variable {α β γ : Type} {values : Column α}

theorem length_rolling {size : Int} {reduce : List α → Except Fault (Option β)} {c : Column β}
    (h : values.rolling size reduce = .ok c) : c.length = values.length := by
  have hrows := (forall₂_of_mapM h).length_eq
  rw [← hrows, List.length_range]

theorem length_combineM {op : α → β → Except Fault γ} {a : Column α} {b : Column β} {c : Column γ}
    (h : combineM op a b = .ok c) : c.length = min a.length b.length := by
  have hrows := (forall₂_of_mapM h).length_eq
  rw [← hrows, List.length_zip]

theorem length_smoothFrom [Arithmetic α] {keep : α} {s : Smoothing α} {c : Column α}
    (h : smoothFrom keep s values = .ok c) : c.length = values.length := by
  induction values generalizing s c with
  | nil =>
    obtain rfl := Except.ok.inj h
    rfl
  | cons v rest ih =>
    obtain ⟨s', -, h⟩ := exists_of_bind_eq_ok h
    obtain ⟨c', hc', h⟩ := exists_of_bind_eq_ok h
    obtain rfl := Except.ok.inj h
    rw [List.length_cons, ih hc', List.length_cons]

theorem length_smooth [Arithmetic α] {span : Int} {c : Column α}
    (h : values.smooth span = .ok c) : c.length = values.length := by
  obtain ⟨x, -, h⟩ := exists_of_bind_eq_ok h
  obtain ⟨alpha, -, h⟩ := exists_of_bind_eq_ok h
  exact length_smoothFrom h

end Column

/-- Columns of a number of rows, by given endings. -/
structure Derived.Shaped (endings : List String) (n : Nat) (d : Derived Float) : Prop where
  endings : d.map (·.1) = endings
  rows : ∀ p ∈ d, p.2.length = n

namespace Indicator

variable {n : Nat} {source : Column Float} {p : Prices Float} {d : Derived Float}

theorem sma_shaped {period : Int} (hs : source.length = n) (h : sma period source = .ok d) :
    Derived.Shaped [""] n d := by
  obtain ⟨c, hc, h⟩ := exists_of_bind_eq_ok h
  obtain rfl := Except.ok.inj h
  exact ⟨rfl, by simp [Column.length_rolling hc, hs]⟩

theorem ema_shaped {span : Int} (hs : source.length = n) (h : ema span source = .ok d) :
    Derived.Shaped [""] n d := by
  obtain ⟨c, hc, h⟩ := exists_of_bind_eq_ok h
  obtain rfl := Except.ok.inj h
  exact ⟨rfl, by simp [Column.length_smooth hc, hs]⟩

theorem rsi_shaped {period : Int} (hs : source.length = n) (h : rsi period source = .ok d) :
    Derived.Shaped [""] n d := by
  obtain ⟨gains, hgains, h⟩ := exists_of_bind_eq_ok h
  obtain ⟨losses, hlosses, h⟩ := exists_of_bind_eq_ok h
  obtain ⟨c, hc, h⟩ := exists_of_bind_eq_ok h
  obtain rfl := Except.ok.inj h
  have hdelta : (source.diff 1).length = n := by
    simp [Column.diff, Column.length_combine, Column.length_shift, hs]
  refine ⟨rfl, ?_⟩
  simp [Column.length_combineM hc, Column.length_rolling hgains, Column.length_rolling hlosses,
    hdelta]

theorem macd_shaped {fast slow signal : Except Fault Int} (hs : source.length = n)
    (h : macd fast slow signal source = .ok d) :
    Derived.Shaped ["", "_signal", "_histogram"] n d := by
  obtain ⟨f, -, h⟩ := exists_of_bind_eq_ok h
  obtain ⟨a, ha, h⟩ := exists_of_bind_eq_ok h
  obtain ⟨s, -, h⟩ := exists_of_bind_eq_ok h
  obtain ⟨b, hb, h⟩ := exists_of_bind_eq_ok h
  obtain ⟨g, -, h⟩ := exists_of_bind_eq_ok h
  obtain ⟨c, hc, h⟩ := exists_of_bind_eq_ok h
  obtain rfl := Except.ok.inj h
  have hline : (minus a b).length = n := by
    simp [minus, Column.length_combine, Column.length_smooth ha, Column.length_smooth hb, hs]
  refine ⟨rfl, ?_⟩
  simp [hline, Column.length_smooth hc, length_minus hline ((Column.length_smooth hc).trans hline)]

theorem bands_shaped {period : Int} {width : Float} (hs : source.length = n)
    (h : bands period width source = .ok d) :
    Derived.Shaped ["", "_upper", "_lower", "_width", "_position"] n d := by
  obtain ⟨middle, hmiddle, h⟩ := exists_of_bind_eq_ok h
  obtain ⟨spread, hspread, h⟩ := exists_of_bind_eq_ok h
  obtain rfl := Except.ok.inj h
  refine ⟨rfl, ?_⟩
  simp [minus, Column.length_combine, Column.length_rolling hmiddle, Column.length_rolling hspread,
    hs]

theorem atr_shaped {period : Int} (hp : p.Sized n) (h : atr period p = .ok d) :
    Derived.Shaped [""] n d := by
  obtain ⟨c, hc, h⟩ := exists_of_bind_eq_ok h
  obtain rfl := Except.ok.inj h
  refine ⟨rfl, ?_⟩
  simp [Column.length_rolling hc, Column.length_shift, hp.high, hp.low, hp.close]

theorem stochastic_shaped {period smoothing : Int} (hp : p.Sized n)
    (h : stochastic period smoothing p = .ok d) : Derived.Shaped ["", "_d"] n d := by
  obtain ⟨lowest, hlow, h⟩ := exists_of_bind_eq_ok h
  obtain ⟨highest, hhigh, h⟩ := exists_of_bind_eq_ok h
  obtain ⟨c, hc, h⟩ := exists_of_bind_eq_ok h
  obtain rfl := Except.ok.inj h
  refine ⟨rfl, ?_⟩
  simp [minus, Column.length_combine, Column.length_rolling hc, Column.length_rolling hlow,
    Column.length_rolling hhigh, hp.high, hp.low, hp.close]

theorem volumeSma_shaped {period : Int} (hp : p.Sized n) (h : volumeSma period p = .ok d) :
    Derived.Shaped ["", "_ratio"] n d := by
  obtain ⟨c, hc, h⟩ := exists_of_bind_eq_ok h
  obtain rfl := Except.ok.inj h
  exact ⟨rfl, by simp [Column.length_combine, Column.length_rolling hc, hp.volume]⟩

theorem priceChange_shaped (period : Int) (hs : source.length = n) :
    Derived.Shaped ["", "_pct"] n (priceChange period source) :=
  ⟨rfl, (priceChange_sized period hs).rows⟩

theorem volatility_shaped {period : Int} (hs : source.length = n) (hp : p.Sized n)
    (h : volatility period source p = .ok d) : Derived.Shaped ["", "_hl"] n d := by
  obtain ⟨c, hc, h⟩ := exists_of_bind_eq_ok h
  obtain rfl := Except.ok.inj h
  have hchange : (source.change 1).length = n := by
    simp [Column.change, Column.length_combine, Column.length_shift, hs]
  refine ⟨rfl, ?_⟩
  simp [minus, length_percent, Column.length_combine, Column.length_rolling hc, hchange, hp.high,
    hp.low, hp.close]

end Indicator

namespace Feature

/-- The endings of the columns of a feature. -/
def endings : FeatureType → List String
  | .sma | .ema | .rsi | .atr => [""]
  | .macd => ["", "_signal", "_histogram"]
  | .bollingerBands => ["", "_upper", "_lower", "_width", "_position"]
  | .stochastic => ["", "_d"]
  | .volumeSma => ["", "_ratio"]
  | .priceChange => ["", "_pct"]
  | .volatility => ["", "_hl"]

variable {n : Nat} {cols : Columns} {spec : Fields} {t : FeatureType}

/-- A feature has a cell for each row in every column that it adds. -/
theorem build_shaped {source : Column Float} {d : Derived Float} (hp : (pricesOf cols).Sized n)
    (hs : source.length = n) (h : build t cols source spec = .ok d) :
    Derived.Shaped (endings t) n d := by
  unfold build at h
  dsimp only at h
  cases t with
  | sma =>
    obtain ⟨k, -, h⟩ := exists_of_bind_eq_ok h
    exact Indicator.sma_shaped hs h
  | ema =>
    obtain ⟨k, -, h⟩ := exists_of_bind_eq_ok h
    exact Indicator.ema_shaped hs h
  | rsi =>
    obtain ⟨k, -, h⟩ := exists_of_bind_eq_ok h
    exact Indicator.rsi_shaped hs h
  | macd => exact Indicator.macd_shaped hs h
  | bollingerBands =>
    obtain ⟨k, -, h⟩ := exists_of_bind_eq_ok h
    obtain ⟨width, -, h⟩ := exists_of_bind_eq_ok h
    exact Indicator.bands_shaped hs h
  | atr =>
    obtain ⟨k, -, h⟩ := exists_of_bind_eq_ok h
    exact Indicator.atr_shaped hp h
  | stochastic =>
    obtain ⟨k, -, h⟩ := exists_of_bind_eq_ok h
    obtain ⟨smoothing, -, h⟩ := exists_of_bind_eq_ok h
    exact Indicator.stochastic_shaped hp h
  | volumeSma =>
    obtain ⟨k, -, h⟩ := exists_of_bind_eq_ok h
    exact Indicator.volumeSma_shaped hp h
  | priceChange =>
    obtain ⟨k, -, h⟩ := exists_of_bind_eq_ok h
    obtain rfl := Except.ok.inj h
    exact Indicator.priceChange_shaped k hs
  | volatility =>
    obtain ⟨k, -, h⟩ := exists_of_bind_eq_ok h
    exact Indicator.volatility_shaped hs hp h

end Feature
end Flowline.Market
