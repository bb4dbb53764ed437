import Flowline.Time.Stamp

/-! Dates and times in ISO 8601 form, in its usual variants: with or without separators, dates by
month or by week, an optional time of day, an optional offset. -/
namespace Flowline.Iso

/-- Exactly `n` digits. -/
def digits? (n : Nat) (s : List Char) : Option (Nat × List Char) :=
  let ds := s.take n
  if ds.length = n && ds.all Char.isDigit then some (Decimal.natOfDigits ds, s.drop n) else none

/-- The day number of the Monday of the first week of a year: the week of January 4th. -/
def firstMonday (year : Nat) : Int :=
  let d := (Date.mk year 1 4).dayNumber
  -- 1970-01-01 was a Thursday
  d - (d + 3).fmod 7

/-- A year has 53 weeks if it starts on a Thursday, or on a Wednesday and is a leap year. -/
def weeksIn (year : Nat) : Nat :=
  let weekday := ((Date.mk year 1 1).dayNumber + 3).fmod 7
  if weekday = 3 || (weekday = 2 && Date.isLeap year) then 53 else 52

/-- The calendar starts with the year 1: a week before it has no month. -/
def ofWeek? (year week day : Nat) : Option Date :=
  if 1 ≤ week && week ≤ weeksIn year && 1 ≤ day && day ≤ 7 then
    if year = 0 then some ⟨1, 0, 0⟩
    else some (.ofDayNumber (firstMonday year + (week - 1) * 7 + (day - 1)))
  else none

/-- The part of a text that holds the date, by its length: what tells the forms apart are the
characters after the year. -/
def dateLength (s : List Char) : Nat :=
  let char (i : Nat) : Char := s[i]?.getD '\x00'
  if s.length = 7 then 7
  else if char 4 = '-' then
    if char 5 ≠ 'W' then 10
    else if char 8 = '-' && s.length ≠ 9 then (if (char 10).isDigit then 8 else 10)
    else 8
  else if char 4 ≠ 'W' then 8
  else
    let last := 7 + ((s.drop 7).takeWhile Char.isDigit).length
    if last < 9 then last else if last % 2 = 0 then 7 else 8

/-- The fields of a date; they need not be a day of the calendar. -/
def date? (s : List Char) : Option Date := do
  let (year, s) ← digits? 4 s
  let (sep, s) := match s with
    | '-' :: r => (true, r)
    | r => (false, r)
  match s with
  | 'W' :: r =>
    let (week, r) ← digits? 2 r
    if r.isEmpty then ofWeek? year week 1
    else
      let r ← if sep then (match r with
        | '-' :: r => some r
        | _ => none) else some r
      let (day, _) ← digits? 1 r
      ofWeek? year week day
  | r =>
    let (month, r) ← digits? 2 r
    let r ← if sep then (match r with
      | '-' :: r => some r
      | _ => none) else some r
    let (day, r) ← digits? 2 r
    if r.isEmpty then some ⟨year, month, day⟩ else none

/-- A time of day, and whether something stands between it and the end of the text. -/
structure Clock where
  hour : Nat
  minute : Nat := 0
  second : Nat := 0
  micro : Nat := 0
  isOpen : Bool := false

/-- A fraction of a second: up to six digits count. -/
def fraction? (s : List Char) : Option (Nat × List Char) :=
  let n := min 6 s.length
  (digits? n s).map fun (v, r) => (v * Nat.pow 10 (6 - n), r.dropWhile Char.isDigit)

/-- How the parts of a time go on behind two digits. -/
inductive Next where
  | done (isOpen : Bool)
  | part (rest : List Char)
  | fraction (rest : List Char)
  | bad

/-- The separator, if there is any, stands between all parts. -/
def next (sep : Bool) (more : Bool) : List Char → Next
  | [] => .done more
  | [c] => if c.toNat < 0x80 then .done true else .bad
  | c :: r =>
    if sep && c == ':' then .part r
    else if c == '.' || c == ',' then .fraction r
    else if sep then .bad
    else .part (c :: r)

def withFraction (c : Clock) (more : Bool) (s : List Char) : Option Clock :=
  (fraction? s).map fun (micro, r) => { c with micro, isOpen := more || !r.isEmpty }

/-- A time of day in a piece of text; `more` says whether text follows the piece. -/
def clock? (more : Bool) (s : List Char) : Option Clock := do
  let (hour, r) ← digits? 2 s
  let sep := r.head? == some ':'
  match next sep more r with
  | .bad => none
  | .done o => return { hour, isOpen := o }
  | .fraction r => withFraction { hour } more r
  | .part r =>
    let (minute, r) ← digits? 2 r
    match next sep more r with
    | .bad => none
    | .done o => return { hour, minute, isOpen := o }
    | .fraction r => withFraction { hour, minute } more r
    | .part r =>
      let (second, r) ← digits? 2 r
      match next sep more r with
      | .bad => none
      | .done o => return { hour, minute, second, isOpen := o }
      | .fraction r | .part r => withFraction { hour, minute, second } more r

/-- Seconds and microseconds of a clock, in microseconds. -/
def Clock.micros (c : Clock) : Nat :=
  (c.hour * 3600 + c.minute * 60 + c.second) * 1000000 + c.micro

/-- A time of day and its offset; without one the clock shows universal time. -/
def time? (s : List Char) : Option (Clock × Int) :=
  let head := s.takeWhile fun c => c != '+' && c != '-'
  match s.drop head.length with
  | [] => (clock? false head).bind fun c => if c.isOpen then none else some (c, 0)
  | sign :: r => do
    let c ← clock? true head
    let o ← clock? false r
    if o.isOpen then failure
    let micros : Int := if o.hour = 0 && o.minute = 0 && o.second = 0 then 0 else o.micros
    return (c, if sign = '-' then -micros else micros)

/-- Date, time of day and offset of a text. A single character stands before the time. -/
def fields? (s : List Char) : Option (Date × Clock × Int) := do
  let n := dateLength s
  let date ← date? (s.take n)
  match s.drop n with
  | [] => return (date, { hour := 0 }, 0)
  | _ :: r =>
    let (clock, offset) ← time? r
    return (date, clock, offset)

/-- Reads a stamp. -/
def read (text : String) : Except StampFault Stamp :=
  match fields? text.toList with
  | none => .error (.unreadable text)
  | some (date, clock, offset) =>
    if StampFault.microsPerDay ≤ offset.natAbs then .error (.offset offset)
    else if date.year = 0 || 9999 < date.year then .error (.year date.year)
    else if date.month = 0 || 12 < date.month then .error .month
    else if !date.isValid then .error .day
    else if 23 < clock.hour then .error .hour
    else if 59 < clock.minute then .error .minute
    else if 59 < clock.second then .error .second
    else .ok (.ofClock date clock.micros offset)

end Flowline.Iso
