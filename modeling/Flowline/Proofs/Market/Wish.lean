import Flowline.Market.Feature
import Flowline.Catalog.Builtin
import Flowline.Proofs.Data.Value
import Flowline.Proofs.Market.Indicator

/-!
# Wishes for features

A wish is sound if its type is known, its column is there, its name is one that the catalog reads
as well, and its numbers make windows and spans of some weight. Script and catalog call a column
alike exactly if it is so named, and a feature with such numbers has a cell for each row.
-/
namespace Flowline.Market.Feature

open Builtin

/-! ### Names -/

/-- What a wish without a name has to say for itself: nothing in place of the name but what counts
as none, and no period, or one that is a signed word. -/
structure IsUnnamed (spec : Fields) : Prop where
  name : ∀ v, spec.get? "name" = some v → isTruthy v = false ∧ v.asStr? = none
  period : ∀ v, spec.get? "period" = some v → v = .null ∨ ∃ k, v = .int k ∧ k ≤ Value.maxSigned

theorem IsUnnamed.orElse {spec : Fields} (h : IsUnnamed spec) :
    orElse (Fields.get? spec "name") .null = .null := by
  cases hget : Fields.get? spec "name" with
  | none => rfl
  | some v => simp [Market.orElse, h.name v hget]

theorem IsUnnamed.bind {spec : Fields} (h : IsUnnamed spec) :
    (Fields.get? spec "name").bind Value.asStr? = none := by
  cases hget : Fields.get? spec "name" with
  | none => rfl
  | some v => exact (h.name v hget).2

/-- The name is a text, or there is none. -/
def IsNamed (spec : Fields) : Prop :=
  (∃ name, spec.get? "name" = some (.str name) ∧ name ≠ "") ∨ IsUnnamed spec

theorem baseName_of_null {spec : Fields} (h : orElse (spec.get? "name") .null = .null)
    (type : String) : baseName spec type = .ok (match field spec "period" with
      | .null => type
      | period => s!"{type}_{Text.shownValue period}") := by
  unfold baseName
  generalize orElse (spec.get? "name") .null = given at h
  subst h
  rfl

theorem featureColumn?_of_none {spec : Fields} {type : String}
    (h : (spec.get? "name").bind Value.asStr? = none) (ht : spec.get? "type" = some (.str type)) :
    featureColumn? (.map spec) = some (match (spec.get? "period").bind Value.asInt? with
      | some period => s!"{type}_{period}"
      | none => type) := by
  unfold featureColumn?
  simp only [Value.get?, h, ht]
  rfl

/-- Script and catalog call the column of such a wish alike. -/
theorem baseName_eq {spec : Fields} {type : String} (h : IsNamed spec)
    (ht : spec.get? "type" = some (.str type)) :
    ∃ name, baseName spec type = .ok name ∧ featureColumn? (.map spec) = some name ∧
      (spec.get? "name" = some (.str name) ∨ name = type ∨ '_' ∈ name.toList) := by
  obtain ⟨name, hname, hne⟩ | h := h
  · have htruthy : isTruthy (.str name) = true := by simpa [isTruthy] using hne
    exact ⟨name, by simp [baseName, hname, orElse, htruthy],
      by simp [featureColumn?, Value.get?, hname, Value.asStr?], .inl hname⟩
  · rw [baseName_of_null h.orElse, featureColumn?_of_none h.bind ht, field]
    cases hget : Fields.get? spec "period" with
    | none => exact ⟨type, rfl, rfl, .inr (.inl rfl)⟩
    | some v =>
      obtain rfl | ⟨k, rfl, hk⟩ := h.period v hget
      · exact ⟨type, rfl, rfl, .inr (.inl rfl)⟩
      · have hint : (Value.int k).asInt? = some k := if_pos hk
        refine ⟨s!"{type}_{k}", rfl, by simp [hint], .inr (.inr ?_)⟩
        have hline : '_' ∈ (toString "_").toList := by decide
        simp [hline]

/-- A name that goes on after a line is longer than the bare one. -/
theorem ne_lined (type period : String) : s!"{type}_{period}" ≠ type := by
  intro h
  have hlen := congrArg String.length h
  have hline : (toString "_").length = 1 := by decide
  have htype : (toString type).length = type.length := rfl
  simp only [String.length_append, hline, htype] at hlen
  omega

theorem lined_ne_empty (type period : String) : s!"{type}_{period}" ≠ "" := by
  intro h
  have hlen := congrArg String.length h
  have hline : (toString "_").length = 1 := by decide
  have hempty : "".length = 0 := by decide
  simp only [String.length_append, hline, hempty] at hlen
  omega

/-- Script and catalog call a column alike only if the wish is named so. -/
theorem isNamed_of_agree {spec : Fields} {type name : String} (htype : type ≠ "")
    (ht : spec.get? "type" = some (.str type)) (hbase : baseName spec type = .ok name)
    (hpromise : featureColumn? (.map spec) = some name) : IsNamed spec := by
  have hperiod : orElse (spec.get? "name") .null = .null →
      (spec.get? "name").bind Value.asStr? = none →
      ∀ v, spec.get? "period" = some v → v = .null ∨ ∃ k, v = .int k ∧ k ≤ Value.maxSigned := by
    intro hnull hnone v hv
    rw [baseName_of_null hnull, field, hv] at hbase
    rw [featureColumn?_of_none hnone ht, hv] at hpromise
    cases hint : v.asInt? with
    | some k => exact .inr ⟨k, Value.asInt?_eq_some.mp hint⟩
    | none =>
      rw [Option.bind_some, hint] at hpromise
      cases hpromise
      cases v with
      | null => exact .inl rfl
      | _ => exact absurd (Except.ok.inj hbase) (ne_lined _ _)
  cases hname : spec.get? "name" with
  | none =>
    rw [hname] at hperiod
    exact .inr ⟨fun v hv => (nomatch hname.symm.trans hv), hperiod rfl rfl⟩
  | some v =>
    rw [hname] at hperiod
    by_cases htruthy : isTruthy v = true
    · cases v with
      | str s => exact .inl ⟨s, hname, by simpa [isTruthy] using htruthy⟩
      | null => cases htruthy
      | _ => simp [baseName, hname, orElse, htruthy] at hbase
    · have hnull : orElse (some v) .null = .null := by simp [orElse, htruthy]
      cases hstr : v.asStr? with
      | none =>
        refine .inr ⟨fun w hw => ?_, hperiod hnull hstr⟩
        cases hname.symm.trans hw
        exact ⟨by simpa using htruthy, hstr⟩
      | some s =>
        -- an empty name is a name for the catalog only
        obtain rfl : v = .str s := by
          cases v with
          | str t => exact congrArg Value.str (Option.some.inj hstr)
          | _ => cases hstr
        have hempty : s = "" := by simpa [isTruthy] using htruthy
        subst hempty
        have hcolumn : featureColumn? (.map spec) = some "" := by
          simp [featureColumn?, Value.get?, hname, Value.asStr?]
        obtain rfl : "" = name := Option.some.inj (hcolumn.symm.trans hpromise)
        rw [baseName_of_null (hname ▸ hnull)] at hbase
        have hbase := Except.ok.inj hbase
        split at hbase
        · exact absurd hbase htype
        · exact absurd hbase (lined_ne_empty _ _)
theorem isNamed_iff {spec : Fields} {type : String} (htype : type ≠ "")
    (ht : spec.get? "type" = some (.str type)) :
    IsNamed spec ↔
      ∃ name, baseName spec type = .ok name ∧ featureColumn? (.map spec) = some name := by
  constructor
  · intro h
    obtain ⟨name, hbase, hpromise, -⟩ := baseName_eq h ht
    exact ⟨name, hbase, hpromise⟩
  · rintro ⟨name, hbase, hpromise⟩
    exact isNamed_of_agree htype ht hbase hpromise

/-! ### Columns -/

/-- The number makes a window of a row or more. -/
def IsWindow (size : Except Fault Int) : Prop := ∃ k, size = .ok k ∧ 1 ≤ k

/-- The number makes a span of some weight. -/
def IsSpan (span : Except Fault Int) : Prop := ∃ k, span = .ok k ∧ Column.IsSpan k

/-- The numbers in a wish make the windows and spans that a feature of its type needs. -/
def IsReadable (spec : Fields) : FeatureType → Prop
  | .sma | .volumeSma => IsWindow (int spec "period" 20)
  | .ema => IsSpan (int spec "period" 20)
  | .rsi | .atr => IsWindow (int spec "period" 14)
  | .macd => IsSpan (int spec "fast_period" 12) ∧ IsSpan (int spec "slow_period" 26) ∧
      IsSpan (int spec "signal_period" 9)
  | .bollingerBands => IsWindow (int spec "period" 20) ∧
      ∃ x, toFloat (param spec "std_dev" (.int 2)) = .ok x
  | .stochastic => IsWindow (toInt (param spec "k_period" (param spec "period" (.int 14)))) ∧
      IsWindow (int spec "d_period" 3)
  | .priceChange => ∃ k, int spec "period" 1 = .ok k
  | .volatility => ∃ k, int spec "period" 20 = .ok k

/-- The columns have a number of rows, and there are all those that are wanted. -/
structure Covers (n : Nat) (wanted : List String) (cols : Columns) : Prop where
  rows : ∀ p ∈ cols, p.2.length = n
  names : ∀ name ∈ wanted, ∃ c, cols.lookup name = some c

variable {permitted : Fault → Prop} {n : Nat} {wanted : List String} {cols : Columns}

theorem Covers.length (h : Covers n wanted cols) {name : String} {c : Column Float}
    (hc : cols.lookup name = some c) : c.length = n := by
  obtain ⟨before, after, rfl, -⟩ := List.lookup_eq_some_iff.mp hc
  exact h.rows (name, c) (by simp)

theorem Covers.get (h : Covers n wanted cols) {name : String} (hname : name ∈ wanted) :
    (get cols name).length = n := by
  obtain ⟨c, hc⟩ := h.names name hname
  unfold Feature.get
  rw [hc]
  exact h.length hc

theorem Covers.prices (h : Covers n wanted cols) (hprices : ∀ c ∈ priceColumns, c ∈ wanted) :
    (pricesOf cols).Sized n :=
  ⟨h.get (hprices _ (by decide)), h.get (hprices _ (by decide)), h.get (hprices _ (by decide)),
    h.get (hprices _ (by decide))⟩

theorem Covers.put (h : Covers n wanted cols) {name : String} {c : Column Float}
    (hc : c.length = n) : Covers n wanted (put cols name c) := by
  refine ⟨fun p hp => ?_, fun k hk => ?_⟩
  · rcases List.mem_cons.mp hp with rfl | hp
    · exact hc
    · exact h.rows p (List.mem_of_mem_filter hp)
  · obtain ⟨d, hd⟩ := h.names k hk
    obtain ⟨p, hp, hkp⟩ := List.lookup_isSome_iff.mp (Option.isSome_of_eq_some hd)
    refine Option.isSome_iff_exists.mp (List.lookup_isSome_iff.mpr ?_)
    by_cases hname : k = name
    · exact ⟨(name, c), List.mem_cons_self, by simp [hname]⟩
    · refine ⟨p, List.mem_cons_of_mem _ (List.mem_filter.mpr ⟨hp, ?_⟩), hkp⟩
      rw [← eq_of_beq hkp]
      simpa using hname

/-- The columns of a table: those of its first row. -/
abbrev columnsOf (rows : List Fields) : List String := Fields.keys (rows.head?.getD [])

/-- A wish that a table with the given columns can grant as the catalog promises. -/
structure IsSound (given : List String) (spec : Fields) : Prop where
  known : ∃ name t, spec.get? "type" = some (.str name) ∧ FeatureType.ofName? name = some t ∧
    IsReadable spec t
  named : IsNamed spec
  untimed : spec.get? "name" ≠ some (.str "timestamp")
  source : ∃ column ∈ given, param spec "column" (.str "close") = .str column

theorem ne_timestamp_of_line {name : String} (h : '_' ∈ name.toList) : name ≠ "timestamp" := by
  rintro rfl
  revert h
  decide

theorem ofName?_ne_timestamp {name : String} {t : FeatureType}
    (h : FeatureType.ofName? name = some t) : name ≠ "timestamp" := by
  rintro rfl
  cases h

/-- A sound wish names its column as the catalog does, and not like the time of a row. -/
theorem IsSound.baseName {given : List String} {spec : Fields} (h : IsSound given spec)
    {type : String} {t : FeatureType} (htype : spec.get? "type" = some (.str type))
    (ht : FeatureType.ofName? type = some t) :
    ∃ name, baseName spec type = .ok name ∧ featureColumn? (.map spec) = some name ∧
      name ≠ "timestamp" := by
  obtain ⟨name, hbase, hpromise, hname⟩ := baseName_eq h.named htype
  refine ⟨name, hbase, hpromise, ?_⟩
  rcases hname with hname | rfl | hline
  · rintro rfl
    exact h.untimed hname
  · exact ofName?_ne_timestamp ht
  · exact ne_timestamp_of_line hline

end Flowline.Market.Feature
