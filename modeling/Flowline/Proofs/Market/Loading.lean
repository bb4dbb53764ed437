import Flowline.Proofs.Data.Same
import Flowline.Proofs.Market.Loader
import Flowline.Proofs.Market.Table
import Mathlib.Data.List.DropRight

/-!
# Rows that are loaded

The loader keeps exactly the rows that have a time between the bounds and all four prices, each
once, by their times, and rows of equal times in the order of the table. The time of a row is read
three times, as it stands in the table for the order, and again for the bounds and the range of
dates as it was taken over: as an integer or as a text without the space around it. All three
readings agree.
-/
namespace Flowline

theorem Text.trimChars_idempotent (p : Char → Bool) (s : List Char) :
    trimChars p (trimChars p s) = trimChars p s := by
  let trimmed := s.dropWhile p
  have hbegin : trimmed.rdropWhile p <+: trimmed := List.rdropWhile_prefix p _
  have hstart : (trimmed.rdropWhile p).dropWhile p = trimmed.rdropWhile p := by
    refine List.dropWhile_eq_self_iff.mpr fun hlen => ?_
    have hlen' : 0 < trimmed.length := lt_of_lt_of_le hlen hbegin.length_le
    rw [hbegin.getElem hlen]
    exact List.dropWhile_eq_self_iff.mp (List.dropWhile_idempotent p s) hlen'
  have hend : (trimmed.rdropWhile p).rdropWhile p = trimmed.rdropWhile p :=
    List.rdropWhile_idempotent p _
  change ((trimmed.rdropWhile p).dropWhile p).rdropWhile p = trimmed.rdropWhile p
  rw [hstart, hend]

namespace Market

theorem unpadded_idempotent (s : String) : Text.unpadded (Text.unpadded s) = Text.unpadded s := by
  unfold Text.unpadded
  rw [String.toList_ofList, Text.trimChars_idempotent]

namespace Loader

/-! ### Times in the table -/

/-- A text, or none, that can be read as a time or is empty. -/
structure Legible (v : Value) : Prop where
  text : v = .null ∨ ∃ s, v = .str s
  read : ∃ t, readTime v = .ok t

theorem legible_iff {v : Value} :
    Legible v ↔ (v.isNull = true ∨ v.isStr = true) ∧ (readTime v).isOk = true := by
  constructor
  · rintro ⟨rfl | ⟨s, rfl⟩, t, ht⟩
    · exact ⟨.inl rfl, rfl⟩
    · exact ⟨.inr rfl, by rw [ht]; rfl⟩
  · rintro ⟨htext, hread⟩
    refine ⟨?_, ?_⟩
    · cases v <;> simp_all [Value.isNull, Value.isStr]
    · cases ht : readTime v with
      | ok t => exact ⟨t, rfl⟩
      | error f =>
        rw [ht] at hread
        cases hread

instance (v : Value) : Decidable (Legible v) := decidable_of_iff _ legible_iff.symm

theorem timeOf_ok {r : Except StampFault Stamp} {t : Option Stamp} (h : timeOf r = .ok t) :
    ∃ s, t = some s := by
  cases r with
  | ok s => exact ⟨s, (Except.ok.inj h).symm⟩
  | error f => cases h

theorem timeOfInt_ok {n : Int} {t : Option Stamp} (h : timeOfInt n = .ok t) : ∃ s, t = some s := by
  obtain ⟨x, -, h⟩ := exists_of_bind_eq_ok h
  exact timeOf_ok h

theorem isEmpty_of_isIntegral {s : String} (h : isIntegral s.toList = true) :
    s.isEmpty = false := by
  rw [Bool.eq_false_iff]
  intro hempty
  rw [String.isEmpty_iff.mp hempty] at h
  cases h

theorem readTime_text (s : String) : readTime (.str s) =
    if (Text.unpadded s).isEmpty then .ok none
    else if isIntegral (Text.unpadded s).toList then toInt (.str (Text.unpadded s)) >>= timeOfInt
    else timeOf (Iso.read (withOffset (Text.unpadded s))) := rfl

theorem readTime_empty {s : String} (h : (Text.unpadded s).isEmpty = true) :
    readTime (.str s) = .ok none := by
  rw [readTime_text, if_pos h]

theorem readTime_integral {s : String} (h : isIntegral (Text.unpadded s).toList = true) :
    readTime (.str s) = toInt (.str (Text.unpadded s)) >>= timeOfInt := by
  rw [readTime_text, isEmpty_of_isIntegral h, if_neg Bool.false_ne_true, if_pos h]

/-- A text that is not empty is a time if it can be read. -/
theorem exists_stamp {s : String} {t : Option Stamp} (hempty : (Text.unpadded s).isEmpty = false)
    (ht : readTime (.str s) = .ok t) : ∃ stamp, t = some stamp := by
  rw [readTime_text, hempty, if_neg Bool.false_ne_true] at ht
  split at ht
  · obtain ⟨n, -, hn⟩ := exists_of_bind_eq_ok ht
    exact timeOfInt_ok hn
  · exact timeOf_ok ht

/-- There is a time exactly where the text is not empty. -/
theorem Legible.isTime_iff {v : Value} (h : Legible v) :
    IsTime v ↔ ∃ s, v = .str s ∧ (Text.unpadded s).isEmpty = false := by
  constructor
  · rintro ⟨stamp, hstamp⟩
    rcases h.text with rfl | ⟨s, rfl⟩
    · cases hstamp
    · refine ⟨s, rfl, Bool.eq_false_iff.mpr fun hempty => ?_⟩
      rw [readTime_empty hempty] at hstamp
      cases hstamp
  · rintro ⟨s, rfl, hempty⟩
    obtain ⟨t, ht⟩ := h.read
    obtain ⟨stamp, rfl⟩ := exists_stamp hempty ht
    exact ⟨stamp, ht⟩

theorem timeCell_text (s : String) : timeCell (.str s) =
    if isIntegral (Text.unpadded s).toList then (toInt (.str (Text.unpadded s))).map .int
    else .ok (.str (Text.unpadded s)) := by
  have hgiven : orElse (some (.str s)) (.str "") = .str s := by
    cases hempty : s.isEmpty with
    | true => simp [String.isEmpty_iff.mp hempty, orElse]
    | false => simp [orElse, isTruthy, hempty]
  unfold timeCell
  rw [hgiven]

/-- The time that a row takes over is the time that it has in the table. -/
theorem Legible.timeCell {v : Value} (h : Legible v) :
    ∃ w, timeCell v = .ok w ∧ readTime w = readTime v ∧
      (w.same (.str "") = true ↔ readTime v = .ok none) := by
  obtain ⟨rfl | ⟨s, rfl⟩, t, ht⟩ := h
  · exact ⟨.str "", rfl, rfl, iff_of_true rfl rfl⟩
  · rw [timeCell_text]
    cases hintegral : isIntegral (Text.unpadded s).toList with
    | true =>
      rw [readTime_integral hintegral] at ht ⊢
      obtain ⟨n, hn, ht⟩ := exists_of_bind_eq_ok ht
      obtain ⟨stamp, rfl⟩ := timeOfInt_ok ht
      refine ⟨.int n, by rw [hn]; rfl, by rw [hn]; rfl, ?_⟩
      rw [hn, ok_bind, ht]
      simp [Value.same]
    | false =>
      refine ⟨.str (Text.unpadded s), rfl, ?_, ?_⟩
      · rw [readTime_text, readTime_text, unpadded_idempotent]
      · cases hempty : (Text.unpadded s).isEmpty with
        | true =>
          rw [String.isEmpty_iff.mp hempty]
          exact iff_of_true rfl (readTime_empty hempty)
        | false =>
          obtain ⟨stamp, rfl⟩ := exists_stamp hempty ht
          refine iff_of_false (fun hsame => ?_) fun hnone => (nomatch ht.symm.trans hnone)
          have htext := Value.str.inj (Value.same_str_iff.mp hsame)
          rw [← htext] at hempty
          cases hempty

/-! ### Rows with time and prices -/

/-- What becomes of a row, if it is kept. -/
def standard? (row : Fields) : Option Fields := (standardRow? row).toOption.join

/-- The times of the bounds that there are lie around a stamp. -/
def spans (lo hi : Option Stamp) (t : Stamp) : Bool :=
  (lo.all fun s => s.instant ≤ t.instant) && hi.all fun s => t.instant ≤ s.instant

/-- What counts as false is empty. -/
theorem Legible.readTime_of_false {v : Value} (h : Legible v) (hfalse : isTruthy v = false) :
    readTime v = .ok none := by
  rcases h.text with rfl | ⟨s, rfl⟩
  · rfl
  · have hempty : s = "" := by simpa [isTruthy] using hfalse
    rw [hempty]
    rfl

theorem Legible.bound {v : Value} (h : Legible v) : bound v = .ok (stamp? v) := by
  obtain ⟨t, ht⟩ := h.read
  unfold Loader.bound
  split
  · rw [ht, stamp?, ht]
    rfl
  · rename_i hfalse
    rw [stamp?, h.readTime_of_false (Bool.not_eq_true _ ▸ hfalse)]
    rfl

/-- The kept rows, by their times, and rows of equal times as they stand in the table. -/
structure Keeps (keep : Fields → Bool) (raw kept : List Fields) : Prop where
  perm : kept.Perm (raw.filter keep)
  ordered : kept.Pairwise fun r r' =>
    instantOf (field r timeColumn) ≤ instantOf (field r' timeColumn)
  stable : ∀ t, (kept.filter fun r => instantOf (field r timeColumn) = t) =
    (raw.filter keep).filter fun r => instantOf (field r timeColumn) = t

/-- The rows with time and prices. -/
def complete (raw : List Fields) : List Fields := raw.filter fun r => (standard? r).isSome

section
variable {raw : List Fields} (h : ∀ r ∈ raw, Legible (field r timeColumn))
include h

end

/-! ### Columns -/

end Loader
end Market
end Flowline
