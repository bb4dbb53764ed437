import Flowline.Decimal.Reader
import Flowline.Text.Literal
import Flowline.Time.Calendar

/-! Stamps: instants to the microsecond, with the offset of the clock that they were read from. -/
namespace Flowline

/-- Why a stamp cannot be read. -/
inductive StampFault where
  | unreadable (text : String)
  | year (year : Int)
  | month
  | day
  | hour
  | minute
  | second
  /-- An offset of a day or more, in microseconds. -/
  | offset (micros : Int)
  | tooFar
  | beyondClock
deriving DecidableEq

namespace StampFault

def microsPerSecond : Int := 1000000
def microsPerDay : Int := 86400 * microsPerSecond

/-- A span of time as its parts that are not zero. -/
def spanLiteral (micros : Int) : String :=
  let rest := micros.fmod microsPerDay
  let parts := [("days", micros.fdiv microsPerDay), ("seconds", rest / microsPerSecond),
    ("microseconds", rest % microsPerSecond)].filter (·.2 ≠ 0)
  let parts := parts.map fun (name, n) => s!"{name}={n}"
  let parts := if parts.isEmpty then "0" else ", ".intercalate parts
  s!"datetime.timedelta({parts})"

def message : StampFault → String
  | unreadable text => s!"Invalid isoformat string: {Text.literal text}"
  | year y => s!"year {y} is out of range"
  | month => "month must be in 1..12"
  | day => "day is out of range for month"
  | hour => "hour must be in 0..23"
  | minute => "minute must be in 0..59"
  | second => "second must be in 0..59"
  | offset micros => "offset must be a timedelta strictly between -timedelta(hours=24) and "
      ++ s!"timedelta(hours=24), not {spanLiteral micros}."
  | tooFar => "timestamp out of range for platform time_t"
  | beyondClock => "[Errno 75] Value too large for defined data type"

end StampFault

structure Stamp where
  /-- Microseconds since 1970-01-01 in universal time. -/
  instant : Int
  /-- Microseconds by which the clock is ahead of universal time. -/
  offset : Int := 0
deriving DecidableEq, Inhabited

namespace Stamp

open StampFault (microsPerSecond microsPerDay)

/-- Six digits, if they are not all zero. -/
def fractionText (micros : Nat) : String := if micros = 0 then "" else "." ++ padded 6 micros

/-- A time of day or an offset: seconds of an offset stand only if needed. -/
def clockText (micros : Nat) (seconds : Bool) : String :=
  let s := micros / 1000000
  let rest := micros % 1000000
  let head := s!"{padded 2 (s / 3600)}:{padded 2 (s / 60 % 60)}"
  if seconds || s % 60 ≠ 0 || rest ≠ 0 then s!"{head}:{padded 2 (s % 60)}{fractionText rest}"
  else head

def text (t : Stamp) : String :=
  let here := t.instant + t.offset
  let date := Date.ofDayNumber (here.fdiv microsPerDay)
  let sign := if t.offset < 0 then "-" else "+"
  date.text ++ "T" ++ clockText (here.fmod microsPerDay).toNat true ++ sign
    ++ clockText t.offset.natAbs false

/-- The stamp of a date and a time of day on a clock. -/
def ofClock (date : Date) (micros : Nat) (offset : Int) : Stamp :=
  ⟨date.dayNumber * microsPerDay + micros - offset, offset⟩

def firstYear : Int := 1
def lastYear : Int := 9999

/-- The clock counts years from 1900 in a signed word of 32 bits. -/
def clockHasYear (year : Int) : Bool := -0x80000000 ≤ year - 1900 && year - 1900 < 0x80000000

/-- The stamp of an instant in universal time. -/
def ofInstant? (micros : Int) : Except StampFault Stamp :=
  let (year, _, _) := Date.civil (micros.fdiv microsPerDay)
  if !clockHasYear year then .error .beyondClock
  else if firstYear ≤ year ∧ year ≤ lastYear then .ok ⟨micros, 0⟩
  else .error (.year year)

/-- The stamp of a number of seconds, to the nearest microsecond; the fraction is rounded as a
float. -/
def ofSeconds? (x : Float) : Except StampFault Stamp :=
  let b := Decimal.Binary.ofBits (x.toBits &&& 0x7FFFFFFFFFFFFFFF)
  let sign : Int := if x < 0.0 then -1 else 1
  let whole := sign * (b.num / b.den : Nat)
  if whole < -0x8000000000000000 ∨ 0x8000000000000000 ≤ whole then .error .tooFar
  else
    let fraction := (Float.ofScientific (b.num % b.den) false 0 / Float.ofScientific b.den false 0)
      * 1000000.0
    let f := Decimal.Binary.ofBits fraction.toBits
    ofInstant? (whole * microsPerSecond + sign * Decimal.roundEven f.num f.den)

end Stamp
end Flowline
