import Flowline.Market.Clock
import Flowline.Market.Feature
import Flowline.Market.Table
import Flowline.Proofs.Data.Record
import Flowline.Proofs.Frame.Columns
import Flowline.Proofs.Market.Column

/-!
# Rows and their times

Setting the cells of a column and filling its gaps only adds to rows: they keep the columns that
they have, and their times unless that column is the time. Rows whose times can be read have a
first and a last time, and can be sorted. What can be read as a time is a number or a text, so it can
be looked up.
-/
namespace Flowline.Market

/-! ### Columns added to rows -/

/-- The row has the columns that it had, and its time. -/
structure Grows (r r' : Fields) : Prop where
  has : ∀ c, r.has c = true → r'.has c = true
  time : field r' "timestamp" = field r "timestamp"

namespace Grows

theorem refl (r : Fields) : Grows r r := ⟨fun _ h => h, rfl⟩

theorem trans {r s t : Fields} (h : Grows r s) (h' : Grows s t) : Grows r t :=
  ⟨fun c hc => h'.has c (h.has c hc), h'.time.trans h.time⟩

theorem insert {name : String} (h : name ≠ "timestamp") (r : Fields) (v : Value) :
    Grows r (r.insert name v) :=
  ⟨fun _ hc => Fields.has_insert.mpr (.inr hc), by
    unfold field
    rw [Fields.get?_insert_of_ne h.symm]⟩

end Grows

/-- Row by row, the tables have grown. -/
abbrev TableGrows (rows rows' : List Fields) : Prop := List.Forall₂ Grows rows rows'

namespace TableGrows

variable {rows rows' : List Fields}

theorem refl (rows : List Fields) : TableGrows rows rows := List.forall₂_same.mpr fun r _ => .refl r

theorem trans {rows'' : List Fields} (h : TableGrows rows rows') (h' : TableGrows rows' rows'') :
    TableGrows rows rows'' := by
  induction h generalizing rows'' with
  | nil => exact h'
  | cons hr _ ih =>
    cases h' with
    | cons hr' hrest => exact .cons (hr.trans hr') (ih hrest)

theorem all {q : Fields → Prop} (h : TableGrows rows rows') (hq : ∀ r r', Grows r r' → q r → q r')
    (hrows : ∀ r ∈ rows, q r) : ∀ r ∈ rows', q r := by
  induction h with
  | nil => exact fun _ hr => nomatch hr
  | cons hr _ ih =>
    intro r hmem
    rcases List.mem_cons.mp hmem with rfl | hmem
    · exact hq _ _ hr (hrows _ List.mem_cons_self)
    · exact ih (fun s hs => hrows s (List.mem_cons_of_mem _ hs)) r hmem

theorem has (h : TableGrows rows rows') {c : String} (hrows : ∀ r ∈ rows, r.has c = true) :
    ∀ r ∈ rows', r.has c = true :=
  h.all (q := fun r => r.has c = true) (fun _ _ hr hc => hr.has c hc) hrows

end TableGrows

variable {name : String} (h : name ≠ "timestamp")
include h

theorem setCells_grows {rows : List Fields} {cells : List Value}
    (hlen : cells.length = rows.length) : TableGrows rows (setCells rows name cells) := by
  unfold setCells
  induction rows generalizing cells with
  | nil => exact .nil
  | cons r rest ih =>
    cases cells with
    | nil => cases hlen
    | cons v cells => exact .cons (.insert h r v) (ih (by simpa using hlen))

theorem carry_grows (last : Value) (rows : List Fields) :
    TableGrows rows (carry name last rows) := by
  induction rows generalizing last with
  | nil => exact .nil
  | cons r rest ih =>
    unfold carry
    split
    · exact .cons (.insert h r last) (ih last)
    · exact .cons (.refl r) (ih _)

theorem fillZeros_grows (rows : List Fields) : TableGrows rows (fillZeros name rows) := by
  unfold fillZeros
  induction rows with
  | nil => exact .nil
  | cons r rest ih =>
    refine .cons ?_ ih
    dsimp only
    split
    · exact .insert h r _
    · exact .refl r

theorem fillColumn_grows (method : FillMethod) (rows : List Fields) :
    TableGrows rows (fillColumn method rows name) := by
  have hback : TableGrows rows (carry name .null rows.reverse).reverse := by
    have := List.forall₂_reverse_iff.mpr (carry_grows h .null rows.reverse)
    rwa [List.reverse_reverse] at this
  unfold fillColumn
  refine TableGrows.trans ?_ (fillZeros_grows h _)
  cases method with
  | forward => exact carry_grows h .null rows
  | backward => exact hback
  | _ => exact .refl rows

omit h

theorem setCells_has {rows : List Fields} {cells : List Value} :
    ∀ r ∈ setCells rows name cells, r.has name = true := by
  unfold setCells
  intro r hr
  obtain ⟨i, hi, rfl⟩ := List.mem_iff_getElem.mp hr
  rw [List.getElem_zipWith]
  exact Fields.has_insert.mpr (.inl rfl)

/-- Filling adds to rows, unless it drops some of them. -/
theorem fill_grows {method : FillMethod} (hm : method ≠ .drop) {names : List String}
    (h : "timestamp" ∉ names) (rows : List Fields) : TableGrows rows (fill method names rows) := by
  have hfold : TableGrows rows (names.foldl (fillColumn method) rows) := by
    induction names generalizing rows with
    | nil => exact .refl rows
    | cons name rest ih =>
      rw [List.mem_cons, not_or] at h
      exact (fillColumn_grows (Ne.symm h.1) method rows).trans (ih h.2 _)
  cases method with
  | drop => exact absurd rfl hm
  | _ => exact hfold

theorem fill_drop_subset (names : List String) (rows : List Fields) :
    ∀ r ∈ fill .drop names rows, r ∈ rows := fun _ hr => List.mem_of_mem_filter hr

/-! ### Times -/

/-- The row has no time, or one that can be read. -/
def Timed (r : Fields) : Prop :=
  (field r "timestamp").isNull = true ∨ ∃ s, readTime (field r "timestamp") = .ok (some s)

theorem Grows.timed {r r' : Fields} (h : Grows r r') (hr : Timed r) : Timed r' := by
  unfold Timed
  rw [h.time]
  exact hr

end Flowline.Market

/-! ### Texts that are no times -/

namespace Flowline

namespace Iso

theorem dateLength_pos (s : List Char) : 0 < dateLength s := by
  unfold dateLength
  dsimp only
  repeat' split
  all_goals omega

/-- Dates begin with a digit. -/
theorem read_eq_error {text : String} {c : Char} {rest : List Char} (h : text.toList = c :: rest)
    (hc : c.isDigit = false) : read text = .error (.unreadable text) := by
  have hdate : date? ((c :: rest).take (dateLength (c :: rest))) = none := by
    obtain ⟨n, hn⟩ := Nat.exists_eq_add_of_lt (dateLength_pos (c :: rest))
    rw [hn]
    simp [date?, digits?, hc]
  unfold read fields?
  simp [h, hdate]

end Iso

namespace Market

/-- The value can be read as a time. -/
def IsTime (v : Value) : Prop := ∃ s, readTime v = .ok (some s)

instance (v : Value) : Decidable (IsTime v) :=
  match h : readTime v with
  | .ok (some s) => isTrue ⟨s, h⟩
  | .ok none => isFalse fun ⟨_, hs⟩ => nomatch h.symm.trans hs
  | .error _ => isFalse fun ⟨_, hs⟩ => nomatch h.symm.trans hs

theorem not_isTime_of_error {v : Value} {fault : Fault} (h : readTime v = .error fault) :
    ¬ IsTime v := by
  rintro ⟨s, hs⟩
  rw [h] at hs
  cases hs

/-- Cutting white space leaves a first character that is none. -/
theorem unpadded_head {text : String} {c : Char} {rest : List Char} (h : text.toList = c :: rest)
    (hc : Text.isPadding c = false) : ∃ rest', (Text.unpadded text).toList = c :: rest' := by
  have hend : ∀ cs : List Char, ∃ ds, (cs ++ [c]).dropWhile Text.isPadding = ds ++ [c] := by
    intro cs
    rw [List.dropWhile_append]
    split
    · exact ⟨[], by simp [hc]⟩
    · exact ⟨_, rfl⟩
  obtain ⟨ds, hds⟩ := hend rest.reverse
  refine ⟨ds.reverse, ?_⟩
  rw [Text.unpadded, String.toList_ofList, h, Text.trimChars, Text.trimStartChars,
    List.dropWhile_cons_of_neg (by simp [hc]), Text.trimEndChars, List.reverse_cons, hds]
  simp

/-- A text that begins with a bracket is no time. -/
theorem bracket_isNoTime {text : String} {c : Char} {rest : List Char}
    (hc : c = '[' ∨ c = '\x7b') (h : text.toList = c :: rest) :
    text.isEmpty = false ∧ isIntegral text.toList = false ∧
      Iso.read (withOffset text) = .error (.unreadable (withOffset text)) := by
  have hclass : c ≠ '-' ∧ Text.isFigure c = false ∧ c.isDigit = false ∧ c ≠ 'Z' := by
    rcases hc with rfl | rfl <;> decide +kernel
  obtain ⟨hminus, hfigure, hdigit, hzone⟩ := hclass
  refine ⟨?_, ?_, ?_⟩
  · rw [Bool.eq_false_iff]
    intro he
    rw [String.isEmpty_iff.mp he] at h
    cases h
  · simp [h, isIntegral, hminus, hfigure]
  · have hoffset : (withOffset text).toList =
        c :: rest.flatMap fun c => if c == 'Z' then "+00:00".toList else [c] := by
      rw [withOffset, String.toList_ofList, h, List.flatMap_cons, if_neg (by simpa using hzone)]
      rfl
    exact Iso.read_eq_error hoffset hdigit

/-- The literal of a list or a mapping begins with a bracket. -/
theorem shownValue_bracket {v : Value} (h : v.isList = true ∨ v.isMap = true) :
    ∃ c rest, (c = '[' ∨ c = '\x7b') ∧ (Text.shownValue v).toList = c :: rest := by
  cases v with
  | list vs => exact ⟨_, _, .inl rfl, by simp [Text.shownValue, Text.valueLiteral]; rfl⟩
  | map fs => exact ⟨_, _, .inr rfl, by simp [Text.shownValue, Text.valueLiteral]; rfl⟩
  | _ => simp [Value.isList, Value.isMap] at h

/-- Lists and mappings are no times. -/
theorem not_isTime {v : Value} (h : v.isList = true ∨ v.isMap = true) : ¬ IsTime v := by
  obtain ⟨c, rest, hc, htext⟩ := shownValue_bracket h
  have hpad : Text.isPadding c = false := by rcases hc with rfl | rfl <;> decide +kernel
  obtain ⟨rest', hcut⟩ := unpadded_head htext hpad
  obtain ⟨hempty, hintegral, hread⟩ := bracket_isNoTime hc hcut
  have htime : readTime v = .error (.stamp (.unreadable
      (withOffset (Text.unpadded (Text.shownValue v))))) := by
    cases v with
    | list vs =>
      simp only [readTime, hempty, hintegral, hread]
      rfl
    | map fs =>
      simp only [readTime, hempty, hintegral, hread]
      rfl
    | _ => simp [Value.isList, Value.isMap] at h
  exact not_isTime_of_error htime

/-- Times can be looked up. -/
theorem IsTime.asKey {v : Value} (h : IsTime v) : asKey v = .ok (canonical v) := by
  unfold Market.asKey
  rw [if_neg]
  rw [Bool.or_eq_true]
  exact fun hv => not_isTime hv h

/-! ### Sorting -/

/-- All rows have times that can be read, and no row is later than one behind it. -/
structure InOrder (time : α → Value) (rows : List α) : Prop where
  isTime : ∀ r ∈ rows, IsTime (time r)
  pairwise : rows.Pairwise fun r r' => ∀ s s', readTime (time r) = .ok (some s) →
    readTime (time r') = .ok (some s') → s.instant ≤ s'.instant

theorem unordered?_map_some (stamps : List Stamp) : unordered? (stamps.map some) = none := by
  cases stamps with
  | nil => rfl
  | cons s rest => simp [unordered?]

/-- The stamp of a time. -/
def stamp? (v : Value) : Option Stamp := (readTime v).toOption.join

theorem IsTime.readTime_eq {v : Value} (h : IsTime v) : readTime v = .ok (stamp? v) := by
  obtain ⟨s, hs⟩ := h
  simp [stamp?, hs, Except.toOption]

theorem stamp?_eq {v : Value} {s : Stamp} (h : readTime v = .ok (some s)) : stamp? v = some s := by
  simp [stamp?, h, Except.toOption]

theorem unordered?_eq_none {vs : List Value} (h : ∀ v ∈ vs, IsTime v) :
    unordered? (vs.map stamp?) = none := by
  obtain ⟨stamps, hstamps⟩ : ∃ stamps : List Stamp, vs.map stamp? = stamps.map some := by
    induction vs with
    | nil => exact ⟨[], rfl⟩
    | cons v rest ih =>
      obtain ⟨⟨s, hs⟩, hrest⟩ := List.forall_mem_cons.mp h
      obtain ⟨stamps, hstamps⟩ := ih hrest
      exact ⟨s :: stamps, by simp [stamp?_eq hs, hstamps]⟩
  rw [hstamps, unordered?_map_some]

/-- The instant of a time that can be read. -/
def instantOf (v : Value) : Int := ((stamp? v).map Stamp.instant).getD 0

theorem instantOf_eq {v : Value} {s : Stamp} (h : readTime v = .ok (some s)) :
    instantOf v = s.instant := by
  rw [instantOf, stamp?_eq h]
  rfl

/-- Rows with times are sorted by their instants. -/
theorem sortByTime_eq (time : α → Value) {rows : List α} (h : ∀ r ∈ rows, IsTime (time r)) :
    sortByTime time rows =
      .ok (rows.mergeSort fun a b => instantOf (time a) ≤ instantOf (time b)) := by
  let stamped (r : α) : α × Option Stamp := (r, stamp? (time r))
  have hread : rows.mapM (fun r => readTime (time r)) =
      (.ok (rows.map fun r => stamp? (time r)) : Except Fault _) :=
    mapM_eq_pure fun r hr => (h r hr).readTime_eq
  have hzip : rows.zip (rows.map fun r => stamp? (time r)) = rows.map stamped := by
    simpa using List.zip_map' (f := id) (g := fun r => stamp? (time r)) (l := rows)
  have hunordered : unordered? (rows.map fun r => stamp? (time r)) = none := by
    have htimes : ∀ v ∈ rows.map time, IsTime v := by simpa using h
    simpa [Function.comp_def] using unordered?_eq_none htimes
  unfold sortByTime
  rw [hread, ok_bind, hunordered, hzip]
  change Except.ok (((rows.map stamped).mergeSort _).map (·.1)) = _
  have hsort : (rows.mergeSort fun a b => instantOf (time a) ≤ instantOf (time b)).map stamped =
      (rows.map stamped).mergeSort fun p q =>
        (p.2.map Stamp.instant).getD 0 ≤ (q.2.map Stamp.instant).getD 0 :=
    List.map_mergeSort fun _ _ _ _ => rfl
  rw [← hsort, List.map_map]
  exact congrArg Except.ok (List.map_id _)

theorem pairwise_sorted (key : α → Int) (rows : List α) :
    (rows.mergeSort fun a b => key a ≤ key b).Pairwise fun a b => key a ≤ key b := by
  have hsorted : (rows.mergeSort fun a b => key a ≤ key b).Pairwise fun a b =>
      decide (key a ≤ key b) = true := List.pairwise_mergeSort (by simp; omega) (by simp; omega) _
  exact hsorted.imp of_decide_eq_true

/-- Rows with times are sorted by them, and none is lost. -/
theorem sortByTime_inOrder (time : α → Value) {rows : List α} (h : ∀ r ∈ rows, IsTime (time r)) :
    ∃ out, sortByTime time rows = .ok out ∧ out.Perm rows ∧ InOrder time out := by
  have hperm := List.mergeSort_perm rows fun a b => instantOf (time a) ≤ instantOf (time b)
  refine ⟨_, sortByTime_eq time h, hperm, fun r hr => h r (hperm.mem_iff.mp hr), ?_⟩
  refine (pairwise_sorted (fun r => instantOf (time r)) rows).imp fun hle s s' hs hs' => ?_
  rwa [instantOf_eq hs, instantOf_eq hs'] at hle

end Market
end Flowline
