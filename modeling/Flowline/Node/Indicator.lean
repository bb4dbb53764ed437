import Flowline.Node.Basic
import Flowline.Series.Indicator

/-! Technical indicators as columns beside the prices. -/
namespace Flowline.Node

def defaultPeriod : Nat := 14

/-- The columns of an indicator. -/
def indicatorColumns (i : Invocation) (indicator : String) (period : Nat) (values : Series) :
    Option (List (String × Series)) :=
  match indicator with
  | "SMA" => some [(s!"SMA_{period}", Series.sma period values)]
  | "EMA" => some [(s!"EMA_{period}", Series.ema period values)]
  | "RSI" => some [(s!"RSI_{period}", Series.rsi period values)]
  | "MACD" =>
    let m := Series.macd ((i.nat? "fast_period").getD 12) ((i.nat? "slow_period").getD 26)
      ((i.nat? "signal_period").getD 9) values
    some [("MACD", m.line), ("MACD_Signal", m.signal), ("MACD_Histogram", m.histogram)]
  | "BB" =>
    let b := Series.bollinger period ((i.float? "std_dev").getD 2.0) values
    some [(s!"BB_Middle_{period}", b.middle), (s!"BB_Upper_{period}", b.upper),
      (s!"BB_Lower_{period}", b.lower), (s!"BB_Percent_{period}", b.percent)]
  | _ => none

def indicator (i : Invocation) : Except NodeError Value := do
  let frame ← i.singleFrame
  let name := String.ofList (((i.text? "indicator").getD "SMA").toList.map Char.toUpper)
  let period := (i.nat? "period").getD defaultPeriod
  if period = 0 then throw (.config "period must be positive")
  let column := (i.text? "column").getD "close"
  frame.requireColumn i.node column
  match indicatorColumns i name period (frame.numbers column) with
  | none => throw (.config s!"unsupported indicator: {name}")
  | some columns =>
    let frame := columns.foldl (fun f (c, values) => f.setColumn c values) frame
    return ((frame.note "indicator" (.str name)).note "period" (.ofNat period)).toValue

end Flowline.Node
