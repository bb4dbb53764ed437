import Flowline.Proofs.Decimal.Digits
import Flowline.Time.Moment

/-!
# Moments in data

A moment of the calendar whose year has four digits is read back from its text, whatever part of the
second it names.
-/
namespace Flowline.Moment

/-- A moment of the calendar; the year has at most four digits, and a leap second may be named. -/
structure IsCivil (m : Moment) : Prop where
  date : m.date.isValid = true
  year : m.date.year ≤ 9999
  hour : m.hour ≤ 23
  minute : m.minute ≤ 59
  second : m.second ≤ 60
  nano : m.nano < 1000000000

instance (m : Moment) : Decidable m.IsCivil :=
  decidable_of_iff (m.date.isValid = true ∧ m.date.year ≤ 9999 ∧ m.hour ≤ 23 ∧ m.minute ≤ 59 ∧
    m.second ≤ 60 ∧ m.nano < 1000000000)
    ⟨fun ⟨h₁, h₂, h₃, h₄, h₅, h₆⟩ => ⟨h₁, h₂, h₃, h₄, h₅, h₆⟩,
      fun h => ⟨h.date, h.year, h.hour, h.minute, h.second, h.nano⟩⟩

/-! ### Parts -/

theorem digits?_padded {width n lo hi : Nat} (hwidth : 0 < width) (hn : n < 10 ^ width)
    (hlo : lo ≤ n) (hhi : n ≤ hi) (rest : List Char) :
    digits? width lo hi ((padded width n).toList ++ rest) = some (n, rest) := by
  have hlen := length_padded hwidth hn
  have htake : ((padded width n).toList ++ rest).take width = (padded width n).toList :=
    List.take_left' hlen
  have hdrop : ((padded width n).toList ++ rest).drop width = rest := List.drop_left' hlen
  have hdigits : (padded width n).toList.all Char.isDigit = true :=
    List.all_eq_true.mpr fun c => isDigit_padded
  simp [digits?, htake, hdrop, hlen, hdigits, natOfDigits_padded, hlo, hhi]

theorem day_le {d : Date} (h : d.isValid = true) :
    1 ≤ d.month ∧ d.month ≤ 12 ∧ 1 ≤ d.day ∧ d.day ≤ 31 := by
  simp only [Date.isValid, Bool.and_eq_true, decide_eq_true_eq] at h
  obtain ⟨⟨⟨hmonth, hmonth'⟩, hday⟩, hday'⟩ := h
  have hbound : Date.daysIn d.year d.month ≤ 31 := by
    unfold Date.daysIn
    repeat' split
    all_goals decide
  exact ⟨hmonth, hmonth', hday, Nat.le_trans hday' hbound⟩

theorem nano?_padded {width n : Nat} (hwidth : 0 < width) (hnine : width ≤ 9) (hn : n < 10 ^ width) :
    nano? ('.' :: ((padded width n).toList ++ ['Z'])) = some (n * 10 ^ (9 - width), ['Z']) := by
  have hlen := length_padded hwidth hn
  have hspan : Decimal.spanDigits ((padded width n).toList ++ ['Z']) =
      ((padded width n).toList, ['Z']) := Decimal.spanDigits_run (fun _ => isDigit_padded) (by simp)
  have hnano : nanoOf (padded width n).toList = n * 10 ^ (9 - width) := by
    rw [nanoOf, List.take_of_length_le (Nat.le_trans (Nat.le_of_eq hlen) hnine),
      natOfDigits_padded, hlen]
    rfl
  rw [nano?, hspan, ← hnano]
  generalize (padded width n).toList = ds at hlen
  cases ds with
  | nil => exact absurd hlen (Nat.ne_of_lt hwidth)
  | cons d ds => rfl

theorem toList_dot (s : String) : ("." ++ s).toList = '.' :: s.toList := String.toList_append

theorem nano?_fraction {nano : Nat} (h : nano < 1000000000) :
    nano? ((fraction nano).toList ++ ['Z']) = some (nano, ['Z']) := by
  unfold fraction
  by_cases hzero : nano = 0
  · rw [if_pos hzero, hzero]
    rfl
  rw [if_neg hzero]
  by_cases hmilli : nano % 1000000 = 0
  · have hback : nano / 1000000 * 10 ^ (9 - 3) = nano := by omega
    rw [if_pos hmilli, toList_dot, List.cons_append,
      nano?_padded (by decide) (by decide) (by omega), hback]
  rw [if_neg hmilli]
  by_cases hmicro : nano % 1000 = 0
  · have hback : nano / 1000 * 10 ^ (9 - 6) = nano := by omega
    rw [if_pos hmicro, toList_dot, List.cons_append,
      nano?_padded (by decide) (by decide) (by omega), hback]
  · rw [if_neg hmicro, toList_dot, List.cons_append, nano?_padded (by decide) (by decide) h]
    simp

theorem toList_text (m : Moment) : m.text.toList =
    (padded 4 m.date.year).toList ++ '-' :: ((padded 2 m.date.month).toList ++
      '-' :: ((padded 2 m.date.day).toList ++ 'T' :: ((padded 2 m.hour).toList ++
        ':' :: ((padded 2 m.minute).toList ++ ':' :: ((padded 2 m.second).toList ++
          ((fraction m.nano).toList ++ ['Z'])))))) := by
  have htoString : ∀ s : String, toString s = s := fun _ => rfl
  simp [text, Date.text, htoString]

/-- A civil moment is read back. -/
theorem ofText?_text {m : Moment} (h : m.IsCivil) : ofText? m.text = some m := by
  obtain ⟨hmonth, hmonth', hday, hday'⟩ := day_le h.date
  have hfour : ∀ rest,
      digits? 4 0 9999 ((padded 4 m.date.year).toList ++ rest) = some (m.date.year, rest) :=
    digits?_padded (by decide) (Nat.lt_succ_of_le h.year) (Nat.zero_le _) h.year
  have htwo : ∀ {n lo hi : Nat}, lo ≤ n → n ≤ hi → hi < 100 → ∀ rest,
      digits? 2 lo hi ((padded 2 n).toList ++ rest) = some (n, rest) :=
    fun hlo hhi hhi' => digits?_padded (by decide) (Nat.lt_of_le_of_lt hhi hhi') hlo hhi
  have hmonths := htwo hmonth hmonth' (by decide)
  have hdays := htwo hday hday' (by decide)
  have hhours := htwo (Nat.zero_le _) h.hour (by decide)
  have hminutes := htwo (Nat.zero_le _) h.minute (by decide)
  have hseconds := htwo (Nat.zero_le _) h.second (by decide)
  have hoffset : offset? ['Z'] = some 0 := rfl
  simp only [ofText?, toList_text, hfour, hmonths, hdays, hhours, hminutes, hseconds,
    nano?_fraction h.nano, mark?, h.date, hoffset, Option.bind_eq_bind, Option.bind_some, decide_true,
    if_true, Bool.not_true, Bool.false_eq_true, if_false, Bool.true_or, Option.pure_def]

theorem decode_toValue {m : Moment} (h : m.IsCivil) : decode m.toValue = some m := by
  simp only [decode, toValue, Value.asStr?, Option.bind_some, ofText?_text h]

end Flowline.Moment
