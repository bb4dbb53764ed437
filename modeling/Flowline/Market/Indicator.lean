import Flowline.Market.Column

/-! Indicators of prices. Each gives columns by the ending that their names take. -/
namespace Flowline.Market

/-- Columns by the endings of their names. -/
abbrev Derived (α : Type) := List (String × Column α)

/-- The prices that indicators read. -/
structure Prices (α : Type) where
  high : Column α
  low : Column α
  close : Column α
  volume : Column α

namespace Indicator

variable {α : Type} [Arithmetic α]
open Arithmetic

def hundred : α := ofInt 100

def sma (period : Int) (source : Column α) : Except Fault (Derived α) :=
  return [("", ← source.average period)]

def ema (span : Int) (source : Column α) : Except Fault (Derived α) :=
  return [("", ← source.smooth span)]

/-- Relative strength of mean gains and losses; one half of the scale if nothing moved. -/
def strength (gain loss : α) : Except Fault α :=
  if isZero loss then .ok (if less zero gain then hundred else ofInt 50)
  else do return hundred - (← quotient hundred (one + (← quotient gain loss)))

def rsi (period : Int) (source : Column α) : Except Fault (Derived α) := do
  let delta := source.diff 1
  let gains : Column α := delta.map fun d => d.map fun d => larger d zero
  let losses : Column α := delta.map fun d => d.map fun d => larger (-d) zero
  let gains ← gains.average period
  let losses ← losses.average period
  return [("", ← Column.combineM strength gains losses)]

def minus (a b : Column α) : Column α := a.combine (fun x y => some (x - y)) b

def macd (fast slow signal : Except Fault Int) (source : Column α) :
    Except Fault (Derived α) := do
  let fast ← source.smooth (← fast)
  let slow ← source.smooth (← slow)
  let line := minus fast slow
  let smooth ← line.smooth (← signal)
  return [("", line), ("_signal", smooth), ("_histogram", minus line smooth)]

def bands (period : Int) (width : α) (source : Column α) : Except Fault (Derived α) := do
  let middle ← source.average period
  let spread ← source.rolling period deviation?
  let upper := middle.combine (fun m s => some (m + s * width)) spread
  let lower := middle.combine (fun m s => some (m - s * width)) spread
  let band := minus upper lower
  let position := (minus source lower).combine ratio band
  return [("", middle), ("_upper", upper), ("_lower", lower), ("_width", band),
    ("_position", position)]

/-- How far the price went in a row, from the close before on. -/
def trueRange (high low before : Option α) : Option α := do
  let h ← high
  let l ← low
  return match before with
    | none => h - l
    | some p => larger (larger (h - l) (abs (h - p))) (abs (l - p))

def atr (period : Int) (p : Prices α) : Except Fault (Derived α) := do
  let ranges := (p.high.zip (p.low.zip (p.close.shift 1))).map fun (h, l, b) => trueRange h l b
  return [("", ← Column.average period ranges)]

def stochastic (period smoothing : Int) (p : Prices α) : Except Fault (Derived α) := do
  let lowest ← p.low.rolling period fun xs => (minimum xs).map some
  let highest ← p.high.rolling period fun xs => (maximum xs).map some
  let rise := (minus p.close lowest).map fun x => x.map (hundred * ·)
  let k := Column.combine ratio rise (minus highest lowest)
  return [("", k), ("_d", ← k.average smoothing)]

def volumeSma (period : Int) (p : Prices α) : Except Fault (Derived α) := do
  let average ← p.volume.average period
  return [("", average), ("_ratio", p.volume.combine ratio average)]

def percent (c : Column α) : Column α := c.map fun x => x.map (· * hundred)

def priceChange (period : Int) (source : Column α) : Derived α :=
  [("", source.diff period), ("_pct", percent (source.change period))]

def volatility (period : Int) (source : Column α) (p : Prices α) : Except Fault (Derived α) := do
  let spread := Column.combine ratio (percent (minus p.high p.low)) p.close
  let deviation ← (source.change 1).rolling period deviation?
  return [("", percent deviation), ("_hl", spread)]

end Indicator
end Flowline.Market
