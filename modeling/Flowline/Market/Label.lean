import Flowline.Market.Clock
import Flowline.Market.Column
import Flowline.Market.Fault
import Flowline.Market.Table

/-! Labels: a signal (-1 sell, 0 hold, 1 buy) and a class for each row of a table. -/
namespace Flowline.Market

/-! Labels by quantiles: the known returns are cut into classes of about equal size. -/

section
variable {α : Type} [Arithmetic α]
open Arithmetic

/-- The point of ascending numbers at the fraction `q` of their range, between two neighbours if
need be. -/
def quantile (ascending : List α) (q : α) : Except Fault α :=
  let last := ascending.length - 1
  let position := ofInt last * q
  let below := floor position
  match ascending[below]?, ascending[min (below + 1) last]? with
  | some a, some b => .ok (a + (b - a) * (position - ofInt below))
  | _, _ => .error .listIndex

/-- The points between the classes; without known returns there are none. -/
def cuts (classes : Int) (known : List α) : Except Fault (List α) :=
  let ascending := known.mergeSort atMost
  if ascending.isEmpty then .ok []
  else (List.range (classes - 1).toNat).mapM fun (k : Nat) =>
    quantile ascending (ofInt (k + 1) / ofInt classes)

/-- The class of rows without a known return. -/
def middleClass (classes : Int) : Int := classes.fdiv 2

/-- The number of cuts up to a return. -/
def classOf (classes : Int) (points : List α) : Option α → Int
  | none => middleClass classes
  | some v => points.countP fun c => atMost c v

def classify (classes : Int) (returns : Column α) : Except Fault (List Int) := do
  let points ← cuts classes (returns.filterMap id)
  return returns.map (classOf classes points)

/-- The change of the price in the rows to come, as a fraction. -/
def futureReturns (period : Int) (close : Column α) : Column α :=
  (close.shift (-period)).combine (fun f c => ratio (f - c) c) close

/-- A signal for changes beyond a threshold: 1 up, -1 down. -/
def thresholdSignal (threshold : α) : Option α → Int
  | none => 0
  | some v => if less threshold v then 1 else if less v (-threshold) then -1 else 0

/-- Both are known and the first is larger. -/
def exceeds : Option α → Option α → Bool
  | some a, some b => less b a
  | _, _ => false

/-- The signal where one line crosses another: 1 from below, -1 from above. -/
def crossingSignal (line other lineBefore otherBefore : Option α) : Int :=
  match line, other, lineBefore, otherBefore with
  | some l, some o, some l₀, some o₀ =>
    if less o l && atMost l₀ o₀ then 1 else if less l o && atMost o₀ l₀ then -1 else 0
  | _, _, _, _ => 0

def crossingSignals (line other : Column α) : List Int :=
  ((line.zip other).zip ((line.shift 1).zip (other.shift 1))).map fun ((l, o), (l₀, o₀)) =>
    crossingSignal l o l₀ o₀

end

/-! Labels by method, and the node that gives them. -/

inductive LabelMethod where
  | futureReturns
  | crossover
  | threshold
  | strength
  | bands
  | convergence
  | multiClass
deriving DecidableEq, Inhabited

def LabelMethod.ofName? : String → Option LabelMethod
  | "future_returns" => some .futureReturns
  | "crossover" => some .crossover
  | "threshold" => some .threshold
  | "rsi_signals" => some .strength
  | "bollinger_signals" => some .bands
  | "macd_signals" => some .convergence
  | "multi_class" => some .multiClass
  | _ => none

namespace Label

def setInts (rows : List Fields) (name : String) (ns : List Int) : List Fields :=
  setCells rows name (ns.map .int)

def setFlags (rows : List Fields) (name : String) (bs : List Bool) : List Fields :=
  setInts rows name (bs.map fun b => if b then 1 else 0)

/-- How many rows ahead to look: one number or a list of them. -/
def periods (params : Fields) : Except Fault (List Int) :=
  match param params "forward_periods" (.int 1) with
  | .list ps => ps.mapM toInt
  | p => do return [← toInt p]

def firstPeriod (ps : List Int) : Except Fault Int :=
  match ps with
  | [] => .error .listIndex
  | p :: _ => .ok p

def returnThreshold (params : Fields) : Except Fault Float :=
  toFloat (param params "return_threshold" (.float 0.02))

def byFutureReturns (params : Fields) (rows : List Fields) : Except Fault (List Fields) := do
  let close := numbers rows "close"
  let threshold ← returnThreshold params
  let ps ← periods params
  let rows := ps.foldl (fun rows p =>
    let returns := Market.futureReturns p close
    setNumbers (setInts rows s!"signal_{p}p" (returns.map (thresholdSignal threshold)))
      s!"future_return_{p}p" returns) rows
  let first ← firstPeriod ps
  return rows.map fun r => r.insert "signal" (field r s!"signal_{first}p")

/-- A column that a parameter names. -/
def namedColumn (rows : List Fields) (name : Value) : Except Fault (Column Float) := do
  match ← asKey name with
  | .str s =>
    if Fields.has (rows.head?.getD []) s then return numbers rows s else throw (.noColumn s)
  | _ => throw (.noColumn (Text.shownValue name))

def byCrossover (params : Fields) (rows : List Fields) : Except Fault (List Fields) := do
  let fastName := field params "fast_column"
  let slowName := field params "slow_column"
  if !isTruthy fastName || !isTruthy slowName then throw .crossoverColumns
  let fast ← namedColumn rows fastName
  let slow ← namedColumn rows slowName
  let distance := fast.combine (fun f s => Arithmetic.ratio (f - s).abs s) slow
  return setNumbers (setFlags (setInts rows "signal" (crossingSignals fast slow))
    "fast_above_slow" (fast.zipWith exceeds slow)) "crossover_strength" distance

def byThreshold (params : Fields) (rows : List Fields) : Except Fault (List Fields) := do
  let change := (numbers rows "close").change 1
  let limit ← returnThreshold params
  return setNumbers (setInts rows "signal" (change.map (thresholdSignal limit))) "price_change"
    change

/-- The first column, its case aside, whose name has a part and goes on in other columns by all
endings; then those columns. -/
def findColumns? (rows : List Fields) (part : String) (endings : List String) :
    Option (List String) :=
  let names := Fields.ofList ((Fields.keys (rows.head?.getD [])).map fun c =>
    (Text.lowerAsciiText c, .str c))
  names.findSome? fun (lowered, name) =>
    if Text.hasInfix lowered part then do
      let others ← endings.mapM fun e => (Fields.get? names (lowered ++ e)).bind Value.asStr?
      return (← name.asStr?) :: others
    else none

/-- Buy below, sell above, hold between. -/
def between (low high : Float) : Option Float → Int
  | none => 0
  | some v => if v < low then 1 else if v > high then -1 else 0

def byStrength (rows : List Fields) : Except Fault (List Fields) :=
  match findColumns? rows "rsi" [] with
  | some [name] =>
    let values := numbers rows name
    let flags (p : Float → Bool) : List Bool := values.map fun v => v.any p
    .ok (setFlags (setFlags (setFlags (setInts rows "signal" (values.map (between 30.0 70.0)))
      "rsi_oversold" (flags fun v => v < 30.0)) "rsi_overbought" (flags fun v => v > 70.0))
      "rsi_extreme" (flags fun v => v < 20.0 || v > 80.0))
  | _ => .error .noStrength

def byBands (rows : List Fields) : Except Fault (List Fields) :=
  match findColumns? rows "" ["_upper", "_lower", "_position"] with
  | some [_, upper, lower, position] =>
    let close := numbers rows "close"
    let count (b : Bool) : Int := if b then 1 else 0
    let above := (close.zipWith exceeds (numbers rows upper)).map count
    let below := ((numbers rows lower).zipWith exceeds close).map count
    .ok (setInts (setInts rows "signal" ((numbers rows position).map (between 0.1 0.9)))
      "bb_breakout" (above.zipWith (· - ·) below))
  | _ => .error .noBands

def byConvergence (rows : List Fields) : Except Fault (List Fields) :=
  match findColumns? rows "macd" ["_signal", "_histogram"] with
  | some [line, signal, histogram] =>
    let line := numbers rows line
    let signal := numbers rows signal
    let histogram := numbers rows histogram
    .ok (setFlags (setFlags (setInts rows "signal" (crossingSignals line signal))
      "macd_above_signal" (line.zipWith exceeds signal))
      "macd_histogram_increasing" (histogram.zipWith exceeds (histogram.shift 1)))
  | _ => .error .noConvergence

/-- The item of a list or the character of a text; negative indices count from the end. -/
def item (names : Value) (i : Int) : Except Fault Value :=
  let pick (vs : List Value) (fault : Fault) : Except Fault Value :=
    let j := if i < 0 then i + vs.length else i
    match if j < 0 then none else vs[j.toNat]? with
    | some v => .ok v
    | none => .error fault
  match names with
  | .list vs => pick vs .listIndex
  | .str s => pick (s.toList.map fun c => .str c.toString) .textIndex
  | .map _ => .error (.noKey i)
  | v => .error (.notIndexed (typeName v))

def byClass (params : Fields) (rows : List Fields) : Except Fault (List Fields) := do
  let classes ← toInt (param params "num_classes" (.int 3))
  let period ← firstPeriod (← periods params)
  let returns := Market.futureReturns period (numbers rows "close")
  let labels ← classify classes returns
  let rows := setNumbers (setInts (setInts rows "label" labels) "signal"
    (labels.map (· - middleClass classes))) "future_return_multiclass" returns
  let names := field params "class_names"
  if isTruthy names then return setCells rows "label_name" (← labels.mapM (item names))
  else return rows

def apply (method : LabelMethod) (params : Fields) (rows : List Fields) :
    Except Fault (List Fields) :=
  match method with
  | .futureReturns => byFutureReturns params rows
  | .crossover => byCrossover params rows
  | .threshold => byThreshold params rows
  | .strength => byStrength rows
  | .bands => byBands rows
  | .convergence => byConvergence rows
  | .multiClass => byClass params rows

/-- A limit that counts as false is never passed. -/
def passes (limit : Value) (test : Float → Float → Bool) (change : Option Float) :
    Except Fault Bool :=
  match change with
  | some v => if isTruthy limit then (toFloat limit).map (test v) else .ok false
  | none => .ok false

/-- Flags rows whose price fell below the stop or rose above the target. -/
def riskFlags (stop take : Value) (rows : List Fields) : Except Fault (List Fields) := do
  let change := (numbers rows "close").change 1
  let flags ← change.mapM fun v => do
    return (← passes stop (fun v l => v < -l) v, ← passes take (fun v l => v > l) v)
  return setFlags (setFlags rows "stop_loss_signal" (flags.map (·.1))) "take_profit_signal"
    (flags.map (·.2))

def signalOf (row : Fields) : Int :=
  match field row "signal" with
  | .int n => n
  | _ => 0

/-- How often each label occurs, in order of the first occurrences. -/
def distribution (rows : List Fields) : Fields :=
  rows.foldl (fun counts r =>
    let label := Text.shownValue (field r "label")
    counts.insert label (.int ((((Fields.get? counts label).bind Value.asInt?).getD 0) + 1))) []

def signalCount (rows : List Fields) : Nat := rows.countP fun r => signalOf r != 0

def stats (rows : List Fields) : Value :=
  let buys := rows.countP fun r => signalOf r > 0
  let sells := rows.countP fun r => signalOf r < 0
  let total := buys + sells
  .map [("total_signals", .ofNat total), ("buy_signals", .ofNat buys),
    ("sell_signals", .ofNat sells), ("hold_periods", .ofNat (rows.length - total)),
    ("signal_frequency", if rows.isEmpty then .int 0
      else .float (Float.ofNat total / Float.ofNat rows.length)),
    ("buy_sell_ratio", .float (Float.ofNat buys / Float.ofNat (max sells 1))),
    ("class_distribution", .map (distribution rows))]

/-- The signal is the label of rows that have none. -/
def withLabel (row : Fields) : Fields :=
  if row.has "label" then row else row.insert "label" (field row "signal")

def label (params inputs : Fields) : Script Value := do
  let wanted := param params "method" (.str "future_returns")
  let name := Text.shownValue wanted
  let method ← match ((← asKey wanted).asStr?).bind LabelMethod.ofName? with
    | some m => pure m
    | none => throw (.noMethod name)
  let table ← match tables inputs with
    | [] => throw .noFrame
    | t :: _ => pure t
  let rows ← (table.mapM toRow : Except Fault (List Fields))
  if rows.isEmpty then throw .noRows
  Script.print s!"Generating labels using method: {name}"
  let rows ← apply method params rows
  let rows := rows.map withLabel
  let stop := field params "stop_loss_pct"
  let take := field params "take_profit_pct"
  let rows ← if isTruthy stop || isTruthy take then riskFlags stop take rows else pure rows
  Script.print s!"Generated labels with {signalCount rows} signals"
  return tableValue rows [("method", .str name), ("rows", .ofNat rows.length),
    ("columns", .ofNat (rows.head?.getD []).length), ("signal_stats", stats rows),
    ("date_range", ← dateRange rows)]

end Label

end Flowline.Market
