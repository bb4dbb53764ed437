import Flowline.Catalog.Builtin
import Flowline.Node.Basic
import Flowline.Series.Crossover

/-! Trading signals where two moving averages cross. -/
namespace Flowline.Node

def priceColumns : List String := Builtin.ohlcvColumns

/-- The columns of the fast and the slow average: those named in the parameters; else averages whose
names end in the periods; else the first two averages; else the first two other numeric columns. -/
def averageColumns (i : Invocation) (frame : Frame) : Except NodeError (String × String) := do
  if let (some fast, some slow) := (i.text? "fast_ma_column", i.text? "slow_ma_column") then
    frame.requireColumn i.node fast
    frame.requireColumn i.node slow
    return (fast, slow)
  let columns := frame.columns
  match columns.filter fun c => Text.hasInfix (Text.lowerAsciiText c) "ma" with
  | first :: second :: rest =>
    let averages := first :: second :: rest
    let named (key : String) (default : Int) :=
      averages.find? (·.endsWith s!"_{(i.int? key).getD default}")
    match named "fast_period" Builtin.defaultFastPeriod,
      named "slow_period" Builtin.defaultSlowPeriod with
    | some fast, some slow => return (fast, slow)
    | _, _ => return (first, second)
  | _ =>
    match columns.filter fun c => !priceColumns.contains (Text.lowerAsciiText c)
        && (frame.numbers c).any Option.isSome with
    | fast :: slow :: _ => return (fast, slow)
    | _ => throw (.input (s!"could not detect moving average columns among [{joined columns}]; "
        ++ "set fast_ma_column and slow_ma_column"))
where
  joined (columns : List String) : String := ", ".intercalate columns

def crossover (i : Invocation) : Except NodeError Value := do
  let frames ← i.inputs.mapM fun (_, v) => Frame.ofValue v
  if frames.isEmpty then throw (.input "crossover requires input data")
  let frame ← Frame.join "timestamp" frames
  let (fastColumn, slowColumn) ← averageColumns i frame
  let fast := frame.numbers fastColumn
  let slow := frame.numbers slowColumn
  let periods := ((i.nat? "confirmation_periods").map (max 1)).getD 1
  let signals := Series.crossings ((i.float? "buy_threshold").getD 0.0)
    ((i.float? "sell_threshold").getD 0.0) fast slow
  let signals := Series.confirmed periods signals (fast.zip slow)
  let column := (i.text? "signal_column").getD Builtin.defaultSignalColumn
  let frame := frame.setColumn column (signals.map some)
  let frame := frame.setColumn "position" ((Series.positions 0.0 signals).map some)
  let frame := frame.setColumn "ma_diff_pct" (fast.zipWith Series.distance? slow)
  let buys := signals.countP fun s => s > 0.0
  let sells := signals.countP fun s => s < 0.0
  let notes : Fields := [("signal_column", .str column), ("fast_ma_column", .str fastColumn),
    ("slow_ma_column", .str slowColumn), ("buy_signals", .ofNat buys),
    ("sell_signals", .ofNat sells), ("total_signals", .ofNat (buys + sells)),
    ("confirmation_periods", .ofNat periods)]
  let frame := notes.foldl (fun f (k, v) => f.note k v) frame
  return ({ frame with shape := .signals }).toValue

end Flowline.Node
