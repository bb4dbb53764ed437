import Flowline.Data.Record
import Flowline.Decimal.Reader
import Flowline.Time.Calendar

/-! Moments in universal time, to the nanosecond, and their written form. -/
namespace Flowline

structure Moment where
  date : Date
  hour : Nat
  minute : Nat
  second : Nat
  nano : Nat
deriving DecidableEq, Inhabited

namespace Moment

/-- Zero, three, six or nine digits of the second, as many as are needed. -/
def fraction (nano : Nat) : String :=
  if nano = 0 then ""
  else if nano % 1000000 = 0 then "." ++ padded 3 (nano / 1000000)
  else if nano % 1000 = 0 then "." ++ padded 6 (nano / 1000)
  else "." ++ padded 9 nano

def text (m : Moment) : String :=
  s!"{m.date.text}T{padded 2 m.hour}:{padded 2 m.minute}:{padded 2 m.second}{fraction m.nano}Z"

/-- The moment `minutes` earlier. -/
def minusMinutes (m : Moment) (minutes : Int) : Moment :=
  let total := m.date.dayNumber * 1440 + m.hour * 60 + m.minute - minutes
  let rest := (total.fmod 1440).toNat
  { m with date := .ofDayNumber (total.fdiv 1440), hour := rest / 60, minute := rest % 60 }

/-- Exactly `n` digits, their value within bounds. -/
def digits? (n lo hi : Nat) (s : List Char) : Option (Nat × List Char) :=
  let ds := s.take n
  let v := Decimal.natOfDigits ds
  if ds.length = n && ds.all Char.isDigit && lo ≤ v && v ≤ hi then some (v, s.drop n) else none

def mark? (p : Char → Bool) : List Char → Option (List Char)
  | c :: r => if p c then some r else none
  | [] => none

/-- Digits of a fraction, in billionths. -/
def nanoOf (ds : List Char) : Nat :=
  let ds := ds.take 9
  Decimal.natOfDigits ds * Nat.pow 10 (9 - ds.length)

/-- The fraction of a second, if there is one, in billionths. -/
def nano? (s : List Char) : Option (Nat × List Char) :=
  match s with
  | '.' :: r => match Decimal.spanDigits r with
    | ([], _) => none
    | (ds, r) => some (nanoOf ds, r)
  | r => some (0, r)

/-- An offset from universal time, in minutes. -/
def offset? : List Char → Option Int
  | ['Z'] | ['z'] => some 0
  | c :: r => do
    if c != '+' && c != '-' then failure
    let (h, r) ← digits? 2 0 23 r
    let r := match r with
      | ':' :: r => r
      | r => r
    let (m, r) ← digits? 2 0 59 r
    if !r.isEmpty then failure
    let n : Int := h * 60 + m
    return if c = '-' then -n else n
  | [] => none

def ofText? (text : String) : Option Moment := do
  let (year, s) ← digits? 4 0 9999 text.toList
  let s ← mark? (· = '-') s
  let (month, s) ← digits? 2 1 12 s
  let s ← mark? (· = '-') s
  let (day, s) ← digits? 2 1 31 s
  let date : Date := ⟨year, month, day⟩
  if !date.isValid then failure
  let s ← mark? (fun c => c = 'T' || c = 't' || c = ' ') s
  let (hour, s) ← digits? 2 0 23 s
  let s ← mark? (· = ':') s
  let (minute, s) ← digits? 2 0 59 s
  let s ← mark? (· = ':') s
  let (second, s) ← digits? 2 0 60 s
  let (nano, s) ← nano? s
  let offset ← offset? s
  let m : Moment := ⟨date, hour, minute, second, nano⟩
  return if offset = 0 then m else m.minusMinutes offset

def toValue (m : Moment) : Value := .str m.text

def decode : Decoder Moment := fun v => v.asStr?.bind ofText?

end Moment
end Flowline
