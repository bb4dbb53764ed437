import Flowline.Market.Arithmetic

/-! An account that trades on signals: it buys when it holds nothing, sells when it holds a
position, and keeps books on both. From the books it is told how well it did. -/
namespace Flowline.Market

/-- One row of prices as an account sees it. -/
structure Bar (α : Type) where
  time : Value
  price : Option α
  signal : α

/-- The terms of trade. -/
structure Terms (α : Type) where
  capital : α
  /-- Charged on the value of entries and exits. -/
  commission : α
  /-- By how much fills are worse than the price. -/
  slippage : α
  /-- The part of the capital that goes into a position. -/
  share : α

structure Position (α : Type) where
  entryTime : Value
  entryPrice : α
  quantity : α
  commission : α
  slippage : α

inductive ExitReason where
  | signal
  | endOfPeriod
deriving DecidableEq

def ExitReason.name : ExitReason → String
  | signal => "signal_exit"
  | endOfPeriod => "end_of_period"

/-- A position that was closed. The commission is that of entry and exit. -/
structure Trade (α : Type) extends Position α where
  exitTime : Value
  exitPrice : α
  profit : α
  returned : α
  reason : ExitReason

/-- The state of an account at a row with a price. -/
structure Mark (α : Type) where
  time : Value
  equity : α
  drawdown : α
  isLong : Bool

structure Account (α : Type) where
  capital : α
  /-- The largest equity so far. -/
  peak : α
  position : Option (Position α) := none
  trades : List (Trade α) := []
  marks : List (Mark α) := []
  /-- The last row with a price. -/
  last : Option (Value × α) := none

namespace Account

variable {α : Type} [Arithmetic α]
open Arithmetic

def opening (t : Terms α) : Account α := { capital := t.capital, peak := t.capital }

/-- The capital, with the open position valued at a price. -/
def equity (a : Account α) (price : α) : α :=
  match a.position with
  | none => a.capital
  | some p => a.capital + (price - p.entryPrice) * p.quantity

def mark (a : Account α) (time : Value) (price : α) : Account α :=
  let equity := a.equity price
  let peak := larger a.peak equity
  let drawdown := if isZero peak then zero else (peak - equity) / peak
  { a with peak, marks := a.marks ++ [⟨time, equity, drawdown, a.position.isSome⟩] }

def enter (t : Terms α) (a : Account α) (time : Value) (price : α) :
    Except Fault (Account α) := do
  let fill := price * (one + t.slippage)
  let value := a.capital * t.share
  let fee := value * t.commission
  let quantity ← quotient (value - fee) fill
  return { a with
    position := some ⟨time, fill, quantity, fee, value * t.slippage⟩
    capital := a.capital - fee }

/-- The trade that closes a position. -/
def settle (t : Terms α) (p : Position α) (time : Value) (price : α) (reason : ExitReason) :
    Except Fault (Trade α) := do
  let fill := price * (one - t.slippage)
  let fee := fill * p.quantity * t.commission
  let profit := (fill - p.entryPrice) * p.quantity - fee
  let returned ← quotient profit (p.entryPrice * p.quantity)
  return { p with
    commission := p.commission + fee, exitTime := time, exitPrice := fill, profit, returned, reason }

/-- Closes the open position, if there is one. -/
def close (t : Terms α) (a : Account α) (time : Value) (price : α) (reason : ExitReason) :
    Except Fault (Account α) :=
  match a.position with
  | none => .ok a
  | some p => do
    let trade ← settle t p time price reason
    return { a with
      position := none, capital := a.capital + trade.profit, trades := a.trades ++ [trade] }

/-- Rows without a price are passed over. -/
def step (t : Terms α) (a : Account α) (b : Bar α) : Except Fault (Account α) :=
  match b.price with
  | none => .ok a
  | some price =>
    let a := { a.mark b.time price with last := some (b.time, price) }
    if less zero b.signal && a.position.isNone then a.enter t b.time price
    else if less b.signal zero then a.close t b.time price .signal
    else .ok a

/-- What is still open at the end is sold at the last price. -/
def finish (t : Terms α) (a : Account α) : Except Fault (Account α) :=
  match a.last with
  | none => .ok a
  | some (time, price) => a.close t time price .endOfPeriod

def run (t : Terms α) (bars : List (Bar α)) : Except Fault (Account α) := do
  finish t (← bars.foldlM (step t) (opening t))

end Account

/-- How well an account did. -/
structure Performance (α : Type) where
  totalReturn : α
  annualReturn : α
  sharpe : α
  maxDrawdown : α
  maxDrawdownRows : Nat
  trades : Nat
  winRate : α
  profitFactor : α
  meanReturn : α
  capital : α

namespace Performance

variable {α : Type} [Arithmetic α]
open Arithmetic

def tradingDays : Int := 252
def calendarDays : Int := 365

/-- The changes between neighbours, as fractions; nothing is divided by zero. -/
def changes : List α → List α
  | a :: b :: rest =>
    if isZero a then changes (b :: rest) else (b / a - one) :: changes (b :: rest)
  | _ => []

/-- Mean by deviation of the returns of a year. -/
def sharpeOf (returns : List α) : Except Fault α := do
  match ← deviation? returns with
  | none => return zero
  | some d =>
    if isZero d then return zero
    else return (← mean returns) / d * sqrt (ofInt tradingDays)

/-- The return that goes on for a year. -/
def annual (totalReturn : α) (rows : Nat) : Except Fault α :=
  if rows != 0 && less (-one) totalReturn then do
    return (← power (one + totalReturn) (ofInt calendarDays / ofInt rows)) - one
  else .ok zero

/-- The longest run of rows below an earlier peak; `peak` is the largest value so far. -/
def longestBelow (peak : Option α) (run longest : Nat) : List α → Nat
  | [] => longest
  | v :: rest =>
    if peak.any fun p => less v p then longestBelow peak (run + 1) (max longest (run + 1)) rest
    else longestBelow (some v) 0 longest rest

/-- Gains by losses; without losses the gains themselves. -/
def profitFactorOf (profits : List α) : α :=
  let losses := profits.filter fun p => atMost p zero
  let lost := if losses.isEmpty then one else abs (sum losses)
  if profits.isEmpty || isZero lost then zero
  else sum (profits.filter fun p => less zero p) / lost

def winRateOf (profits : List α) : α :=
  if profits.isEmpty then zero
  else ofInt (profits.countP fun p => less zero p) / ofInt profits.length

def ofAccount (t : Terms α) (a : Account α) (rows : Nat) : Except Fault (Performance α) := do
  let equities := a.marks.map Mark.equity
  let profits := a.trades.map Trade.profit
  let totalReturn ← quotient (a.capital - t.capital) t.capital
  let sharpe ← sharpeOf (changes equities)
  return {
    totalReturn, sharpe
    annualReturn := ← annual totalReturn rows
    maxDrawdown := match a.marks.map Mark.drawdown with
      | [] => zero
      | d :: ds => ds.foldl larger d
    maxDrawdownRows := longestBelow none 0 0 equities
    trades := a.trades.length
    winRate := winRateOf profits
    profitFactor := profitFactorOf profits
    meanReturn := ← if a.trades.isEmpty then .ok zero else mean (a.trades.map Trade.returned)
    capital := a.capital }

end Performance
end Flowline.Market
