import Flowline.Node.Indicator
import Flowline.Proofs.Market.Integer
import Flowline.Proofs.Validation.Parameters

/-!
# Bounds on the numbers of an indicator

The rules of indicators look at integers among the signed words and pass over those above them,
while the node reads those too. What validation lets pass is therefore within its bounds exactly
unless the period is such an integer, or the fast period of a convergence is one and not below the
slow period.
-/
namespace Flowline.Node

variable {n : Declaration} {i : Invocation} {key : String}

/-- The parameter is an integer above the signed words. -/
def Oversized (params : Fields) (key : String) : Prop :=
  ∃ k, params.get? key = some (.int k) ∧ Value.maxSigned < k

/-- The parameter is a positive integer, if it is given. -/
def SpanGiven (params : Fields) (key : String) : Prop :=
  ∀ v, params.get? key = some v → ∃ k, v = .int k ∧ 1 ≤ k

/-- A number above zero. -/
def IsPositive : Value → Prop
  | .int k => 0 < k
  | .float x => x > 0
  | _ => False

/-- The period that the node reads, and the two periods of a convergence. -/
def readPeriod (i : Invocation) : Nat := (i.nat? "period").getD defaultPeriod
def readFast (i : Invocation) : Nat := (i.nat? "fast_period").getD 12
def readSlow (i : Invocation) : Nat := (i.nat? "slow_period").getD 26

/-- The periods that are read are those that a convergence is computed with. -/
theorem indicatorColumns_macd (i : Invocation) (period : Nat) (values : Series) :
    indicatorColumns i "MACD" period values =
      let m := Series.macd (readFast i) (readSlow i) ((i.nat? "signal_period").getD 9) values
      some [("MACD", m.line), ("MACD_Signal", m.signal), ("MACD_Histogram", m.histogram)] := rfl

/-! ### One integer -/

theorem spanGiven_of_accepted (h : Parametrized Builtin.indicator n)
    (hparam : Builtin.indicator.param? key = some ⟨key, .integer⟩)
    (hrule : NoErrors (Rule.intAtLeast n key 1)) : SpanGiven n.params key := by
  intro v hv
  have hkind := h.kinds key v _ hv hparam
  cases v with
  | int k =>
    refine ⟨k, rfl, ?_⟩
    by_cases hk : k ≤ Value.maxSigned
    · have hlow := Rule.whenGiven_noErrors hrule (Builtin.int?_of_le hv hk)
      simpa using hlow
    · have : 1 ≤ Value.maxSigned := by decide
      omega
  | _ => cases hkind

theorem isPositive_of_accepted (h : Parametrized Builtin.indicator n) {v : Value}
    (hv : n.params.get? "std_dev" = some v) : IsPositive v := by
  have hkind := h.kinds "std_dev" v ⟨"std_dev", .number⟩ hv (by decide)
  obtain ⟨-, -, -, -, -, hrule, -⟩ := Builtin.indicatorRules_noErrors h
  have hnumber : n.number? "std_dev" = v.asFloat? := by
    rw [Declaration.number?, Declaration.param?, hv]
    rfl
  cases v with
  | int k =>
    have hpos : Value.floatOfInt k > 0 :=
      of_decide_eq_true (Rule.whenGiven_noErrors hrule hnumber)
    exact Market.pos_of_ofInt_pos hpos
  | float x =>
    have hpos : x > 0 := of_decide_eq_true (Rule.whenGiven_noErrors hrule hnumber)
    exact hpos
  | _ => cases hkind

/-- An integer that is not oversized is the same to the node and to the rules. -/
theorem nat?_eq_int? (hspan : SpanGiven n.params key) (hfits : ¬ Oversized n.params key)
    (hparams : i.params = n.params) (d : Nat) :
    (((i.nat? key).getD d : Nat) : Int) = (n.int? key).getD d := by
  rw [Invocation.nat?, hparams, Declaration.int?, Declaration.param?]
  cases hv : n.params.get? key with
  | none => rfl
  | some v =>
    obtain ⟨k, rfl, hk⟩ := hspan v hv
    have hle : k ≤ Value.maxSigned := by
      by_contra hgt
      exact hfits ⟨k, hv, by omega⟩
    have hnonneg : 0 ≤ k := by omega
    simp [Value.asNat?, Value.asInt?, hle, hnonneg]

/-- An oversized integer is read by the node, while the rules take it for absent. -/
theorem Oversized.skipped (h : Oversized n.params key) (hparams : i.params = n.params) (d : Nat) :
    n.int? key = none ∧ Value.maxSigned < (i.nat? key).getD d := by
  obtain ⟨k, hv, hk⟩ := h
  have hpos : 0 ≤ Value.maxSigned := by decide
  have hnot : ¬ k ≤ Value.maxSigned := by omega
  have hnonneg : 0 ≤ k := by omega
  rw [Invocation.nat?, hparams, Declaration.int?, Declaration.param?, hv]
  simp [Value.asNat?, Value.asInt?, hnot, hnonneg, hk]

/-! ### All numbers -/

/-- What the rules make sure of in any case. -/
structure Assured (params : Fields) : Prop where
  spans : ∀ key ∈ ["fast_period", "slow_period", "signal_period"], SpanGiven params key
  deviation : ∀ v, params.get? "std_dev" = some v → IsPositive v

/-- What the rules are there for besides. -/
structure Bounded (i : Invocation) : Prop where
  period : ∃ k, i.params.get? "period" = some (.int k) ∧ 1 ≤ k ∧ k ≤ 1000
  convergence : i.text? "indicator" = some "MACD" → readFast i < readSlow i
  /-- The period in the names of the columns is that of the node. -/
  named : Builtin.int i.params "period" 14 = readPeriod i

/-- An integer that the rules pass over is out of bounds. -/
def Overlooked (i : Invocation) : Prop :=
  Oversized i.params "period" ∨ i.text? "indicator" = some "MACD" ∧
    Oversized i.params "fast_period" ∧ readSlow i ≤ readFast i

/-- The integers of a convergence are in order unless the fast one is oversized. -/
theorem readFast_lt (h : Parametrized Builtin.indicator n) (hassured : Assured n.params)
    (hparams : i.params = n.params) (htext : n.text? "indicator" = some "MACD")
    (hfast : ¬ Oversized n.params "fast_period") : readFast i < readSlow i := by
  obtain ⟨-, -, -, -, -, -, hmacd⟩ := Builtin.indicatorRules_noErrors h
  have hrule := hmacd htext
  have hread : (readFast i : Int) = (n.int? "fast_period").getD 12 :=
    nat?_eq_int? (hassured.spans _ (by simp)) hfast hparams 12
  by_cases hslow : Oversized n.params "slow_period"
  · -- The fast period was compared with the default, which an oversized slow one exceeds.
    obtain ⟨hskipped, hlarge⟩ := hslow.skipped hparams 26
    have hlarge : Value.maxSigned < readSlow i := hlarge
    have hmax : 26 ≤ Value.maxSigned := by decide
    rw [hskipped, Option.getD_none] at hrule
    omega
  · have hread' : (readSlow i : Int) = (n.int? "slow_period").getD 26 :=
      nat?_eq_int? (hassured.spans _ (by simp)) hslow hparams 26
    omega

theorem assured_of_accepted (h : Parametrized Builtin.indicator n) : Assured n.params := by
  obtain ⟨-, -, hfast, hslow, hsignal, -, -⟩ := Builtin.indicatorRules_noErrors h
  refine ⟨fun key hkey => ?_, fun v hv => isPositive_of_accepted h hv⟩
  simp only [List.mem_cons, List.not_mem_nil, or_false] at hkey
  rcases hkey with rfl | rfl | rfl
  · exact spanGiven_of_accepted h (by decide) hfast
  · exact spanGiven_of_accepted h (by decide) hslow
  · exact spanGiven_of_accepted h (by decide) hsignal

theorem Bounded.not_overlooked (h : Bounded i) : ¬ Overlooked i := by
  rintro (⟨l, hl, hlarge⟩ | ⟨htext, -, hle⟩)
  · obtain ⟨k, hk, -, hhigh⟩ := h.period
    have hmax : 1000 ≤ Value.maxSigned := by decide
    cases hl.symm.trans hk
    omega
  · exact absurd (h.convergence htext) (by omega)

theorem bounded_of_not_overlooked (h : Parametrized Builtin.indicator n)
    (hparams : i.params = n.params) (hnot : ¬ Overlooked i) : Bounded i := by
  obtain ⟨k, hperiod, hrange⟩ := Builtin.indicator_range h
  have hfits : ¬ Oversized n.params "period" := fun hover => hnot (Or.inl (hparams ▸ hover))
  have hk : k ≤ Value.maxSigned := by
    by_contra hgt
    exact hfits ⟨k, hperiod, by omega⟩
  obtain ⟨hlow, hhigh⟩ := hrange hk
  refine ⟨⟨k, hparams ▸ hperiod, hlow, hhigh⟩, fun htext => ?_, ?_⟩
  · by_cases hover : Oversized n.params "fast_period"
    · by_contra hle
      exact hnot (Or.inr ⟨htext, hparams ▸ hover, by omega⟩)
    · rw [Invocation.text?, hparams] at htext
      exact readFast_lt h (assured_of_accepted h) hparams htext hover
  · have hspan : SpanGiven n.params "period" := by
      intro v hv
      exact ⟨k, Option.some.inj (hv.symm.trans hperiod), hlow⟩
    rw [hparams]
    exact (nat?_eq_int? hspan hfits hparams 14).symm

/-- The numbers of an indicator that validation lets pass. -/
theorem bounded_unless_overlooked
    (haccepted : NoErrors (Validation.parameterFaults Builtin.indicator n))
    (hparams : i.params = n.params) :
    Assured i.params ∧ (Bounded i ↔ ¬ Overlooked i) ∧
      (Oversized i.params "period" →
        Builtin.int i.params "period" 14 = 14 ∧ Value.maxSigned < readPeriod i) := by
  have h := Validation.parameterFaults_noErrors haccepted
  refine ⟨hparams ▸ assured_of_accepted h, ⟨Bounded.not_overlooked, ?_⟩, fun hover => ?_⟩
  · exact bounded_of_not_overlooked h hparams
  · obtain ⟨hskipped, hlarge⟩ := Oversized.skipped (hparams ▸ hover) hparams defaultPeriod
    refine ⟨?_, hlarge⟩
    rw [hparams]
    exact congrArg (Option.getD · 14) hskipped

/-- A node with some parameters of an indicator. -/
def spansNode (params : Fields) : Declaration :=
  { id := "spans", type := "IndicatorNode", params, dependsOn := ["load"] }

def spansInvocation (params : Fields) : Invocation := { (default : Invocation) with params }

/-- A convergence whose slow period alone is passed over. -/
def slowSpans : Fields :=
  [("indicator", .str "MACD"), ("period", .int 14), ("fast_period", .int 5),
    ("slow_period", .int 9223372036854775808), ("std_dev", .int 2)]

theorem slowSpans_bounded :
    NoErrors (Validation.parameterFaults Builtin.indicator (spansNode slowSpans)) ∧
      Assured slowSpans ∧ ¬ Overlooked (spansInvocation slowSpans) ∧
      Bounded (spansInvocation slowSpans) := by
  have haccepted : NoErrors (Validation.parameterFaults Builtin.indicator
      (spansNode slowSpans)) := noErrors_of_eq_nil rfl
  have hnot : ¬ Overlooked (spansInvocation slowSpans) := by
    simp [Overlooked, Oversized, spansInvocation, slowSpans, Fields.get?, Value.maxSigned]
  obtain ⟨hassured, hbounded, -⟩ := bounded_unless_overlooked (i := spansInvocation slowSpans)
    haccepted rfl
  exact ⟨haccepted, hassured, hnot, hbounded.mpr hnot⟩

/-- A period above the signed words passes, and the columns are named for another one. -/
theorem oversized_period_passes :
    NoErrors (Validation.parameterFaults Builtin.indicator
        (spansNode [("indicator", .str "EMA"), ("period", .int 9223372036854775808)])) ∧
      ¬ Bounded (spansInvocation
        [("indicator", .str "EMA"), ("period", .int 9223372036854775808)]) := by
  refine ⟨noErrors_of_eq_nil rfl, ?_⟩
  rintro ⟨⟨k, hk, -, hhigh⟩, -, -⟩
  simp [spansInvocation, Fields.get?] at hk
  omega

end Flowline.Node
