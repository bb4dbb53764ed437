import Flowline.Frame.Basic

/-! Signals where one series crosses another. -/
namespace Flowline.Series

/-- Both entries have a number and the first is larger. -/
def above (fast slow : Option Float) : Bool :=
  match fast, slow with
  | some f, some s => f > s
  | _, _ => false

/-- The distance of two entries in percent of the second. -/
def distance? (fast slow : Option Float) : Option Float := do
  let f ← fast
  let s ← slow
  if s != 0.0 then return (f - s) / s * 100.0 else none

/-- The signal at a place: 1 where the fast series rises above the slow one, -1 where it falls
back, if the distance reaches the threshold. -/
def crossing (buy sell : Float) (wasAbove : Bool) (fast slow : Option Float) : Float :=
  let strength := ((distance? fast slow).map Float.abs).getD 0.0
  let isAbove := above fast slow
  if isAbove && !wasAbove && strength >= buy then 1.0
  else if !isAbove && wasAbove && strength >= sell then -1.0
  else 0.0

def crossingsFrom (buy sell : Float) (wasAbove : Bool) : Series → Series → List Float
  | f :: fast, s :: slow =>
    crossing buy sell wasAbove f s :: crossingsFrom buy sell (above f s) fast slow
  | _, _ => []

def crossings (buy sell : Float) (fast slow : Series) : List Float :=
  crossingsFrom buy sell false fast slow

/-- The entries lie on the side that the signal says. -/
def agrees (signal : Float) : Option Float × Option Float → Bool
  | (some f, some s) => signal > 0.0 && f > s || signal < 0.0 && f < s
  | _ => false

/-- Keeps the signals that all of the next `periods - 1` entries agree with. -/
def confirmed (periods : Nat) : List Float → List (Option Float × Option Float) → List Float
  | signal :: signals, _ :: pairs =>
    let following := (pairs.take (periods - 1)).countP (agrees signal)
    (if signal != 0.0 && following < periods - 1 then 0.0 else signal)
      :: confirmed periods signals pairs
  | signals, _ => signals

/-- The position after each entry: the sign of the latest signal. -/
def positions (held : Float) : List Float → List Float
  | [] => []
  | s :: rest =>
    let held := if s > 0.0 then 1.0 else if s < 0.0 then -1.0 else held
    held :: positions held rest

end Flowline.Series
