import Flowline.Catalog.Builtin
import Flowline.Proofs.Market.Account
import Flowline.Proofs.Market.Indicator
import Flowline.Proofs.Validation.Parameters

/-!
# Positions worth nothing

A position is hollow if its quantity at the price of its purchase comes to zero, as it does when
the fee takes all that is put into it. Its sale then divides by zero. Nothing else in the books or
the report of a backtest does, if its parameters pass validation and prices are positive.
-/
namespace Flowline.Market

open Arithmetic

namespace Account

variable {t : Terms Float} {a : Account Float} {b : Bar Float} {bars : List (Bar Float)}
  {p : Position Float}

/-- The account holds a position that comes to zero at the price of its purchase. -/
def IsHollow (a : Account Float) : Prop :=
  ∃ p, a.position = some p ∧ isZero (p.entryPrice * p.quantity) = true

/-- The account is hollow after some of the rows. -/
def BecomesHollow (t : Terms Float) (bars : List (Bar Float)) : Prop :=
  ∃ before after a, before ++ after = bars ∧ before.foldlM (step t) (opening t) = .ok a ∧ IsHollow a

theorem quotient_eq_error {x y : Float} (h : isZero y = true) : quotient x y = .error .quotient := by
  unfold quotient
  rw [h]
  rfl

/-! ### A hollow account -/

theorem IsHollow.close (h : IsHollow a) (time : Value) (price : Float) (reason : ExitReason) :
    a.close t time price reason = .error .quotient := by
  obtain ⟨p, hp, hzero⟩ := h
  unfold Account.close settle
  rw [hp]
  dsimp only
  rw [quotient_eq_error hzero]
  rfl

/-- A hollow account stays so until it sells, and then fails. -/
theorem IsHollow.step (h : IsHollow a) (b : Bar Float) :
    step t a b = .error .quotient ∨
      ∃ a', step t a b = .ok a' ∧ IsHollow a' ∧ (a.last.isSome → a'.last.isSome) := by
  have hheld : a.position.isNone = false := by
    obtain ⟨p, hp, -⟩ := h
    rw [hp]
    rfl
  cases hb : b.price with
  | none => exact .inr ⟨a, step_eq_self hb, h, id⟩
  | some price =>
    have hmarked : IsHollow (a.marked b.time price) := h
    rw [step_eq hb, hheld, Bool.and_false, if_neg Bool.false_ne_true]
    split
    · exact .inl (hmarked.close b.time price .signal)
    · exact .inr ⟨_, rfl, hmarked, fun _ => rfl⟩

/-- A hollow account that has seen a price fails in the end. -/
theorem IsHollow.run (h : IsHollow a) (hlast : a.last.isSome = true) (bars : List (Bar Float)) :
    bars.foldlM (Account.step t) a >>= finish t = .error .quotient := by
  induction bars generalizing a with
  | nil =>
    obtain ⟨⟨time, price⟩, hl⟩ := Option.isSome_iff_exists.mp hlast
    change finish t a = _
    unfold finish
    rw [hl]
    exact h.close time price .endOfPeriod
  | cons b rest ih =>
    rw [List.foldlM_cons]
    obtain hstep | ⟨a', hstep, ha', hlast'⟩ := h.step (t := t) b
    · rw [hstep]
      rfl
    · rw [hstep]
      exact ih ha' (hlast' hlast)

/-- An account that becomes hollow fails. -/
theorem run_of_becomesHollow (h : BecomesHollow t bars) : run t bars = .error .quotient := by
  obtain ⟨before, after, a, rfl, hbefore, hollow⟩ := h
  obtain ⟨spans, bought?, hrecorded⟩ := foldlM_recorded hbefore
  obtain ⟨p, hp, -⟩ := id hollow
  have hrun := hollow.run (t := t) (hrecorded.last_of_position hp) after
  unfold Account.run
  rw [List.foldlM_append, hbefore]
  exact hrun

/-! ### An account that is never hollow -/

theorem close_ok (h : ¬ IsHollow a) (time : Value) (price : Float) (reason : ExitReason) :
    ∃ a', a.close t time price reason = .ok a' := by
  unfold close
  split
  · exact ⟨_, rfl⟩
  · rename_i p hp
    have hvalue : isZero (p.entryPrice * p.quantity) = false := by
      rw [Bool.eq_false_iff]
      exact fun hzero => h ⟨p, hp, hzero⟩
    unfold settle
    dsimp only
    rw [quotient_eq hvalue]
    exact ⟨_, rfl⟩

variable (hslippage : t.slippage ≥ 0)
include hslippage

/-- Prices with slippage can be divided by, so only a hollow position makes a step fail. -/
theorem step_ok (hb : ∀ x, b.price = some x → x > 0) (h : ¬ IsHollow a) :
    ∃ a', step t a b = .ok a' := by
  cases hprice : b.price with
  | none => exact ⟨a, step_eq_self hprice⟩
  | some price =>
    rw [step_eq hprice]
    split
    · unfold enter
      dsimp only
      rw [quotient_eq (isZero_fill (hb price hprice) hslippage)]
      exact ⟨_, rfl⟩
    · split
      · exact close_ok (a := a.marked b.time price) h b.time price .signal
      · exact ⟨_, rfl⟩

/-- An account that never is hollow does not fail. -/
theorem run_of_not_becomesHollow (hbars : ∀ b ∈ bars, ∀ x, b.price = some x → x > 0)
    (h : ¬ BecomesHollow t bars) : ∃ a, run t bars = .ok a := by
  have hfold : ∀ before after a, before ++ after = bars →
      before.foldlM (step t) (opening t) = .ok a → ∃ a', after.foldlM (step t) a = .ok a' := by
    intro before after
    induction after generalizing before with
    | nil => exact fun a _ _ => ⟨a, rfl⟩
    | cons b rest ih =>
      intro a hbars' hbefore
      have hb : b ∈ bars := by simp [← hbars']
      obtain ⟨a₁, ha₁⟩ := step_ok hslippage (hbars b hb)
        (fun hollow => h ⟨before, b :: rest, a, hbars', hbefore, hollow⟩)
      have hnext : (before ++ [b]).foldlM (step t) (opening t) = .ok a₁ := by
        rw [List.foldlM_append, hbefore, ok_bind, List.foldlM_cons, ha₁]
        rfl
      obtain ⟨a', ha'⟩ := ih (before ++ [b]) a₁ (by simpa using hbars') hnext
      exact ⟨a', by rw [List.foldlM_cons, ha₁, ok_bind, ha']⟩
  obtain ⟨a, ha⟩ := hfold [] bars (opening t) rfl rfl
  have hsound : ¬ IsHollow a := fun hollow => h ⟨bars, [], a, by simp, ha, hollow⟩
  unfold run
  rw [ha, ok_bind]
  unfold finish
  split
  · exact ⟨a, rfl⟩
  · exact close_ok hsound _ _ _

end Account

/-! ### The report -/

variable {permitted : Fault → Prop}

theorem power_ends (hrange : permitted .outOfRange) (x y : Float) :
    Ends permitted (fun _ => True) (power x y) := by
  unfold power
  split
  · trivial
  · exact hrange

/-- There is a mean where there is a deviation. -/
theorem Performance.sharpeOf_ends (hrange : permitted .outOfRange) (returns : List Float) :
    Ends permitted (fun _ => True) (sharpeOf returns) := by
  by_cases hne : returns = []
  · subst hne
    trivial
  · unfold sharpeOf
    refine (Indicator.deviation_ends hrange returns).bind fun d _ => ?_
    cases d with
    | none => trivial
    | some d =>
      dsimp only
      split
      · trivial
      · exact (mean_ends hne).bind fun _ _ => trivial

theorem Performance.annual_ends (hrange : permitted .outOfRange) (x : Float) (n : Nat) :
    Ends permitted (fun _ => True) (annual x n) := by
  unfold annual
  split
  · exact (power_ends hrange _ _).bind fun _ _ => trivial
  · trivial

/-- Only powers are out of range in a report on an account that began with some capital. -/
theorem Performance.ofAccount_ends (hrange : permitted .outOfRange) {t : Terms Float}
    (hcapital : t.capital > 0) (a : Account Float) (n : Nat) :
    Ends permitted (fun _ => True) (ofAccount t a n) := by
  unfold ofAccount
  dsimp only
  rw [quotient_eq (isZero_of_pos hcapital), ok_bind]
  refine (sharpeOf_ends hrange _).bind fun _ _ => (annual_ends hrange _ _).bind fun _ _ => ?_
  split
  · trivial
  · rename_i htrades
    exact (mean_ends (by simpa using htrades)).bind fun _ _ => trivial

/-! ### Terms that pass validation -/

namespace Backtest

variable {n : Declaration}

/-- A parameter that is a number keeps the rule that its number keeps, if it is not too large. -/
theorem toFloat_param_ends (h : Parametrized Builtin.backtest n) {key : String}
    (hkey : Builtin.backtest.param? key = some ⟨key, .number⟩) {default : Float} {P : Float → Prop}
    (hdefault : P default) (hP : ∀ x, n.number? key = some x → P x) :
    Ends (· = .hugeInteger) P (toFloat (param n.params key (.float default))) := by
  unfold param
  cases hget : Fields.get? n.params key with
  | none => exact hdefault
  | some v =>
    have hnumber : n.number? key = v.asFloat? := by
      rw [Declaration.number?, Declaration.param?, hget]
      rfl
    have hkind := h.kinds key v _ hget hkey
    rw [hnumber] at hP
    cases v with
    | int k =>
      change Ends _ P (floatOfInt? k)
      unfold floatOfInt?
      dsimp only
      split
      · exact hP _ rfl
      · rfl
    | float x => exact hP x rfl
    | _ => cases hkind

theorem terms_ends (h : Parametrized Builtin.backtest n) :
    Ends (· = .hugeInteger) (fun t => t.capital > 0 ∧ t.slippage ≥ 0) (terms n.params) := by
  have hrules := h.rules Builtin.backtestRules List.mem_cons_self
  obtain ⟨hrules, -⟩ := noErrors_append.mp hrules
  obtain ⟨hrules, -⟩ := noErrors_append.mp hrules
  obtain ⟨hrules, hslippage⟩ := noErrors_append.mp hrules
  obtain ⟨hcapital, -⟩ := noErrors_append.mp hrules
  unfold terms
  refine (toFloat_param_ends h (by decide) (P := (· > 0)) (by decide +kernel) fun x hx =>
    of_decide_eq_true (Rule.whenGiven_noErrors hcapital hx)).bind fun capital hcapital => ?_
  refine (toFloat_param_ends h (by decide) (P := fun _ => True) trivial fun _ _ => trivial).bind
    fun commission _ => ?_
  refine (toFloat_param_ends h (by decide) (P := (· ≥ 0)) (by decide +kernel) fun x hx =>
    of_decide_eq_true (Rule.whenGiven_noErrors hslippage hx)).bind fun slippage hslippage => ?_
  refine (toFloat_param_ends h (by decide) (P := fun _ => True) trivial fun _ _ => trivial).bind
    fun share _ => ?_
  exact ⟨hcapital, hslippage⟩

/-- In floats the books are those of the run itself. -/
theorem books_eq {params : Fields} {t : Terms Float} (h : terms params = .ok t) (column : Value)
    (rows : List Fields) :
    books id params column rows = (Account.run t (rows.map (barOf column)) >>= fun a =>
      Performance.ofAccount t a rows.length >>= fun p => .ok (t, a, p)) := by
  unfold books
  rw [h, ok_bind]
  simp only [Terms.map_id, Bar.map_id]
  rfl

/-- With parameters that pass validation and positive prices, the books and the report of a backtest
divide by zero exactly if the account becomes hollow. Otherwise only numbers are too large. -/
theorem books_divide_unless_hollow (column : Value) {rows : List Fields}
    (hvalid : NoErrors (Validation.parameterFaults Builtin.backtest n))
    (hprices : ∀ r ∈ rows, ∃ x, number (field r "close") = some x ∧ x > 0) :
    (terms n.params = .error .hugeInteger ∧
        books id n.params column rows = .error .hugeInteger) ∨
      ∃ t, terms n.params = .ok t ∧
        ((Account.BecomesHollow t (rows.map (barOf column)) ∧
            books id n.params column rows = .error .quotient) ∨
          (¬ Account.BecomesHollow t (rows.map (barOf column)) ∧
            ((∃ a p, books id n.params column rows = .ok (t, a, p)) ∨
              books id n.params column rows = .error .outOfRange))) := by
  have hbars : ∀ b ∈ rows.map (barOf column), ∀ x, b.price = some x → x > 0 := by
    intro b hb x hx
    obtain ⟨r, hr, rfl⟩ := List.mem_map.mp hb
    obtain ⟨y, hy, hpos⟩ := hprices r hr
    obtain rfl : y = x := Option.some.inj (hy.symm.trans hx)
    exact hpos
  obtain ⟨t, hterms, hcapital, hslippage⟩ | ⟨fault, hterms, rfl⟩ :=
    (terms_ends (Validation.parameterFaults_noErrors hvalid)).cases
  · refine .inr ⟨t, hterms, ?_⟩
    by_cases hollow : Account.BecomesHollow t (rows.map (barOf column))
    · refine .inl ⟨hollow, ?_⟩
      rw [books_eq hterms, Account.run_of_becomesHollow hollow]
      rfl
    · refine .inr ⟨hollow, ?_⟩
      obtain ⟨a, ha⟩ := Account.run_of_not_becomesHollow hslippage hbars hollow
      rw [books_eq hterms, ha, ok_bind]
      have hends : Ends (· = .outOfRange) (fun _ => True)
          (Performance.ofAccount t a rows.length) :=
        Performance.ofAccount_ends (by rfl) hcapital a rows.length
      obtain ⟨p, hp, -⟩ | ⟨fault, hp, rfl⟩ := hends.cases
      · exact .inl ⟨a, p, by rw [hp, ok_bind]⟩
      · exact .inr (by rw [hp]; rfl)
  · refine .inl ⟨hterms, ?_⟩
    unfold books
    rw [hterms]
    rfl

def backtestNode (params : Fields) : Declaration :=
  { id := "backtest", type := "BacktestNode", params, dependsOn := [] }

/-- A purchase and a sale. -/
def soldRows : List Fields :=
  [[("timestamp", .int 1), ("close", .int 100), ("signal", .float 1.0)],
    [("timestamp", .int 2), ("close", .int 110), ("signal", .float (-1.0))]]

theorem soldRows_prices :
    ∀ r ∈ soldRows, ∃ x, number (field r "close") = some x ∧ x > 0 := by
  intro r hr
  rcases List.mem_pair.mp hr with rfl | rfl
  · exact ⟨100.0, by decide +kernel, by decide +kernel⟩
  · exact ⟨110.0, by decide +kernel, by decide +kernel⟩

def defaultTerms : Terms Float := ⟨10000.0, 0.001, 0.0005, 1.0⟩

/-- With the default terms, the account never is hollow. -/
theorem soldRows_divide :
    NoErrors (Validation.parameterFaults Builtin.backtest (backtestNode [])) ∧
      ¬ Account.BecomesHollow defaultTerms (soldRows.map (barOf (.str "signal"))) ∧
      ((∃ a p, books id [] (.str "signal") soldRows = .ok (defaultTerms, a, p)) ∨
        books id [] (.str "signal") soldRows = .error .outOfRange) := by
  have hvalid : NoErrors (Validation.parameterFaults Builtin.backtest (backtestNode [])) :=
    noErrors_of_eq_nil rfl
  have hterms : terms [] = .ok defaultTerms := rfl
  have hrun : (Account.run defaultTerms (soldRows.map (barOf (.str "signal")))).toOption.isSome =
      true := by decide +kernel
  obtain ⟨hhuge, -⟩ | ⟨t, ht, ⟨hollow, -⟩ | hsound⟩ :=
    books_divide_unless_hollow (.str "signal") hvalid soldRows_prices
  · cases hterms.symm.trans hhuge
  · obtain rfl : defaultTerms = t := Except.ok.inj (hterms.symm.trans ht)
    rw [Account.run_of_becomesHollow hollow] at hrun
    cases hrun
  · obtain rfl : defaultTerms = t := Except.ok.inj (hterms.symm.trans ht)
    exact ⟨hvalid, hsound⟩

/-- A fee that takes all that is put into a position makes the account hollow. -/
theorem soldRows_hollow :
    NoErrors (Validation.parameterFaults Builtin.backtest
        (backtestNode [("commission", .float 1.0)])) ∧
      (∀ r ∈ soldRows, ∃ x, number (field r "close") = some x ∧ x > 0) ∧
      books id [("commission", .float 1.0)] (.str "signal") soldRows = .error .quotient := by
  have hterms : terms [("commission", .float 1.0)] = .ok { defaultTerms with commission := 1.0 } :=
    rfl
  have hfault : (match Account.run { defaultTerms with commission := 1.0 }
      (soldRows.map (barOf (.str "signal"))) with
      | .error fault => decide (fault = .quotient)
      | .ok _ => false) = true := by decide +kernel
  have hrun : Account.run { defaultTerms with commission := 1.0 }
      (soldRows.map (barOf (.str "signal"))) = .error .quotient := by
    split at hfault
    · rename_i fault hrun
      rw [hrun, of_decide_eq_true hfault]
    · cases hfault
  refine ⟨noErrors_of_eq_nil rfl, soldRows_prices, ?_⟩
  rw [books_eq hterms, hrun]
  rfl

end Backtest
end Flowline.Market
