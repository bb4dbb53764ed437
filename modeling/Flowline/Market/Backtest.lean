import Flowline.Market.Account
import Flowline.Market.Clock
import Flowline.Market.Fault
import Flowline.Market.Table

/-! Backtests: prices and signals are brought together, an account trades on them, and its books
and performance are reported. -/
namespace Flowline.Market.Backtest

/-- The signals of rows by their times. -/
def signalsByTime (column : Value) (rows : List Value) : Except Fault (List (Value × Value)) :=
  rows.mapM fun row => do
    let row ← asFields row
    return (← asKey (field row "timestamp"), match column with
      | .str c => field row c
      | _ => .null)

/-- The last signal of a time. -/
def signalAt (signals : List (Value × Value)) (time : Value) : Value :=
  ((signals.reverse.find? fun s => s.1.same time).map (·.2)).getD .null

/-- Sets the signal of a row; only texts name columns. -/
def setSignal (column signal : Value) (row : Fields) : Fields :=
  match column with
  | .str c => row.insert c signal
  | _ => row

/-- A row of prices with the signal of its time. -/
def joinRow (column : Value) (signals : List (Value × Value)) (row : Value) :
    Except Fault Fields := do
  let fields ← asFields row
  let signal := signalAt signals (← asKey (field fields "timestamp"))
  return setSignal column signal fields

/-- The first table that has the signals, unless it lacks the close and another table has prices:
then the prices with the signals of their times. Without signals, prices or the first table. -/
def mergedRows (inputs : Fields) (column : Value) : Script (List Fields) := do
  let ts := (tables inputs).filter fun t => !t.isEmpty
  if ts.isEmpty then throw .noBars
  let holdsColumn (c : Value) (t : List Value) : Except Fault Bool := holds (t.head?.getD .null) c
  let withSignal ← (ts.filterM (holdsColumn column) : Except Fault (List (List Value)))
  let prices ← prices? ts
  match withSignal, prices with
  | [], _ =>
    Script.print s!"Warning: no '{Text.shownValue column}' column in inputs, assuming no signals"
    let rows := prices.getD (ts.head?.getD [])
    (rows.mapM toRow : Except Fault (List Fields))
  | t :: _, none => (t.mapM toRow : Except Fault (List Fields))
  | t :: _, some prices =>
    if ← holdsColumn (.str "close") t then (t.mapM toRow : Except Fault (List Fields))
    else
      let signals ← signalsByTime column t
      (prices.mapM (joinRow column signals) : Except Fault (List Fields))

/-- A row that has a time and a close, with a number as its signal. -/
def readyRow (column : Value) (row : Fields) : Except Fault Fields := do
  if !row.has "timestamp" || !row.has "close" then throw .incompleteRows
  let signal := match column with
    | .str c => number (field row c)
    | _ => none
  let signal := match signal with
    | some x => if x == 0.0 then 0.0 else x
    | none => 0.0
  return setSignal column (.float signal) row

def readyRows (inputs : Fields) (column : Value) : Script (List Fields) := do
  let rows ← mergedRows inputs column
  let rows ← (rows.mapM (readyRow column) : Except Fault (List Fields))
  sortByTime (fun r => field r "timestamp") rows

def barOf (column : Value) (row : Fields) : Bar Float where
  time := field row "timestamp"
  price := number (field row "close")
  signal := match column with
    | .str c => (number (field row c)).getD 0.0
    | _ => 0.0

def terms (params : Fields) : Except Fault (Terms Float) :=
  let read (key : String) (default : Float) := toFloat (param params key (.float default))
  return {
    capital := ← read "initial_capital" 10000.0
    commission := ← read "commission" 0.001
    slippage := ← read "slippage" 0.0005
    share := ← read "position_size" 1.0 }

def tradeValue (t : Trade Float) : Value :=
  .map [("entry_time", t.entryTime), ("entry_price", .float t.entryPrice),
    ("quantity", .float t.quantity), ("side", .str "long"), ("commission_paid", .float t.commission),
    ("slippage_cost", .float t.slippage), ("status", .str "closed"), ("exit_time", t.exitTime),
    ("exit_price", .float t.exitPrice), ("pnl", .float t.profit), ("return_pct", .float t.returned),
    ("exit_reason", .str t.reason.name)]

def markValue (m : Mark Float) : Value :=
  .map [("timestamp", m.time), ("equity", .float m.equity), ("drawdown", .float m.drawdown),
    ("position", .str (if m.isLong then "long" else "flat"))]

def performanceValue (p : Performance Float) : Value :=
  .map [("total_return", .float p.totalReturn), ("annual_return", .float p.annualReturn),
    ("sharpe_ratio", .float p.sharpe), ("max_drawdown", .float p.maxDrawdown),
    ("max_drawdown_duration", .ofNat p.maxDrawdownRows), ("num_trades", .ofNat p.trades),
    ("win_rate", .float p.winRate), ("profit_factor", .float p.profitFactor),
    ("avg_trade_return", .float p.meanReturn), ("final_capital", .float p.capital)]

def backtest (params inputs : Fields) : Script Value := do
  let column := param params "signal_column" (.str "signal")
  let rows ← readyRows inputs column
  let t ← terms params
  Script.print s!"Starting backtest over {rows.length} bars"
  let a ← Account.run t (rows.map (barOf column))
  let p ← Performance.ofAccount t a rows.length
  Script.print s!"Backtest finished: {p.trades} trades, final capital {Decimal.fixed 2 p.capital}"
  return .map [("type", .str "backtest_results"),
    ("data", .map [("metrics", performanceValue p), ("trades", .list (a.trades.map tradeValue)),
      ("equity_curve", .list (a.marks.map markValue))]),
    ("metadata", .map [("initial_capital", .float t.capital), ("commission", .float t.commission),
      ("slippage", .float t.slippage), ("position_size", .float t.share),
      ("backtest_period", ← dateRange rows), ("total_periods", .ofNat rows.length)])]

end Flowline.Market.Backtest
