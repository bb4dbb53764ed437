import Flowline.Frame.Basic

/-! Windows that move over a series, and technical indicators of a price series. -/
namespace Flowline.Series

/-- The `period` entries that end at index `i`, if there are so many and none is missing. -/
def window? (period : Nat) (values : List (Option α)) (i : Nat) : Option (List α) :=
  if period = 0 ∨ i + 1 < period then none
  else ((values.drop (i + 1 - period)).take period).mapM id

/-- For each entry the value of `f` on the window that ends there. -/
def rolling (period : Nat) (f : List α → Option β) (values : List (Option α)) : List (Option β) :=
  (List.range values.length).map fun i => (window? period values i).bind f

/-- The sum from left to right; that of nothing is negative zero, the neutral element. -/
def sum (xs : List Float) : Float := xs.foldl (· + ·) (-0.0)

def mean (xs : List Float) : Float := sum xs / Float.ofNat xs.length

/-- The larger number; the other one beside what is no number. -/
def larger (a b : Float) : Float := if b > a then b else if a.isNaN then b else a

def smaller (a b : Float) : Float := if b < a then b else if a.isNaN then b else a

/-- Simple moving average. -/
def sma (period : Nat) (values : Series) : Series := rolling period (fun w => some (mean w)) values

/-- One step of the exponential average; a gap keeps the value before. -/
def smooth (alpha : Float) : Option Float → Option Float → Option Float
  | none, v => v
  | some p, some v => some (alpha * v + (1.0 - alpha) * p)
  | some p, none => some p

/-- The averages after each entry, the first entry with a number being the first average. -/
def smoothed (alpha : Float) (prev : Option Float) : Series → Series
  | [] => []
  | v :: rest =>
    let next := smooth alpha prev v
    next :: smoothed alpha next rest

/-- Exponential moving average. -/
def ema (period : Nat) (values : Series) : Series :=
  smoothed (2.0 / (Float.ofNat period + 1.0)) none values

/-- Differences of neighbours; the first entry has none. -/
def changes (values : Series) : Series :=
  (none :: values).zipWith (fun prev cur => do return (← cur) - (← prev)) values

def strength (gain loss : Option Float) : Option Float := do
  let g ← gain
  let l ← loss
  return if l == 0.0 then 100.0 else 100.0 - 100.0 / (1.0 + g / l)

/-- Relative strength index. -/
def rsi (period : Nat) (values : Series) : Series :=
  let deltas := changes values
  let gains := deltas.map fun d => d.map fun x => larger x 0.0
  let losses := deltas.map fun d => d.map fun x => larger (-x) 0.0
  (sma period gains).zipWith strength (sma period losses)

def difference (a b : Series) : Series := a.zipWith (fun x y => do return (← x) - (← y)) b

structure Macd where
  line : Series
  signal : Series
  histogram : Series

/-- Convergence and divergence of two exponential averages. -/
def macd (fast slow signal : Nat) (values : Series) : Macd :=
  let line := difference (ema fast values) (ema slow values)
  let smooth := ema signal line
  ⟨line, smooth, difference line smooth⟩

/-- The standard deviation of a sample; one number has none. -/
def deviation? (xs : List Float) : Option Float :=
  if xs.length < 2 then none
  else
    let m := mean xs
    some (sum (xs.map fun x => (x - m) * (x - m)) / Float.ofNat (xs.length - 1)).sqrt

structure Bands where
  middle : Series
  upper : Series
  lower : Series
  percent : Series

/-- Where a value lies between two bands, as a fraction. -/
def position (value upper lower : Option Float) : Option Float := do
  let v ← value
  let u ← upper
  let l ← lower
  if u != l then return (v - l) / (u - l) else none

/-- Bollinger bands. -/
def bollinger (period : Nat) (width : Float) (values : Series) : Bands :=
  let middle := sma period values
  let deviation := rolling period deviation? values
  let upper := middle.zipWith (fun m d => do return (← m) + (← d) * width) deviation
  let lower := middle.zipWith (fun m d => do return (← m) - (← d) * width) deviation
  ⟨middle, upper, lower, values.zipWith (fun v (u, l) => position v u l) (upper.zip lower)⟩

end Flowline.Series
