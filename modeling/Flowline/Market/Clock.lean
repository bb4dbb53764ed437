import Flowline.Market.Coerce
import Flowline.Time.Iso

/-! The times of rows: seconds or milliseconds from 1970, or texts. -/
namespace Flowline.Market

def timeOf (r : Except StampFault Stamp) : Except Fault (Option Stamp) :=
  match r with
  | .ok s => .ok (some s)
  | .error f => .error (.stamp f)

def timeOfFloat (x : Float) : Except Fault (Option Stamp) :=
  if x.isNaN then .error .nanInteger
  else if x.isInf then .error .infiniteInteger
  else timeOf (Stamp.ofSeconds? (if 1e11 < x.abs then x / 1000.0 else x))

def timeOfInt (n : Int) : Except Fault (Option Stamp) := do
  let x ← floatOfInt? n
  timeOf (Stamp.ofSeconds? (if 100000000000 < n.natAbs then x / 1000.0 else x))

/-- Texts of digits are numbers. -/
def isIntegral (text : List Char) : Bool :=
  let ds := text.dropWhile (· == '-')
  !ds.isEmpty && ds.all Text.isFigure

/-- The letter of universal time, written as an offset. -/
def withOffset (text : String) : String :=
  String.ofList (text.toList.flatMap fun c => if c == 'Z' then "+00:00".toList else [c])

/-- Reads a time; null and empty texts are none. -/
def readTime : Value → Except Fault (Option Stamp)
  | .null => .ok none
  | .int n => timeOfInt n
  | .float x => timeOfFloat x
  | v =>
    let text := Text.unpadded (Text.shownValue v)
    if text.isEmpty then .ok none
    else if isIntegral text.toList then toInt (.str text) >>= timeOfInt
    else timeOf (Iso.read (withOffset text))

def timeType : Option Stamp → String
  | some _ => "datetime.datetime"
  | none => "NoneType"

/-- Only stamps have an order. -/
def before (a b : Option Stamp) : Except Fault Bool :=
  match a, b with
  | some a, some b => .ok (a.instant < b.instant)
  | a, b => .error (.unordered (timeType a) (timeType b))

def stampText : Option Stamp → Except Fault Value
  | some s => .ok (.str s.text)
  | none => .error .noStamp

/-- The first and the last time of rows. -/
def dateRange (rows : List Fields) : Except Fault Value := do
  let given := (rows.map fun r => field r "timestamp").filter fun v => !v.isNull
  match ← given.mapM readTime with
  | [] => return .map [("start", .null), ("end", .null)]
  | s :: rest =>
    let first ← rest.foldlM (fun m t => do return if ← before t m then t else m) s
    let last ← rest.foldlM (fun m t => do return if ← before m t then t else m) s
    return .map [("start", ← stampText first), ("end", ← stampText last)]

/-- Two rows whose times cannot be compared: the first one without a time and a neighbour. -/
def unordered? : List (Option Stamp) → Option Fault
  | none :: t :: _ => some (.unordered (timeType t) (timeType none))
  | some s :: rest => if rest.contains none then some (.unordered (timeType none) (timeType (some s)))
    else none
  | _ => none

/-- Sorted by time, equal times in their old order. -/
def sortByTime (time : α → Value) (rows : List α) : Except Fault (List α) := do
  let times ← rows.mapM fun r => readTime (time r)
  match unordered? times with
  | some fault => .error fault
  | none =>
    let instant (p : α × Option Stamp) : Int := (p.2.map Stamp.instant).getD 0
    return ((rows.zip times).mergeSort fun a b => instant a ≤ instant b).map (·.1)

end Flowline.Market
