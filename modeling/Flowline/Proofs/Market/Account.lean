import Flowline.Market.Backtest
import Flowline.Proofs.Data.Record
import Flowline.Proofs.Market.Outcome
import Mathlib.Algebra.Order.Field.Basic
import Mathlib.Algebra.Order.Floor.Semiring
import Mathlib.Data.List.Forall2
import Mathlib.Data.Rat.Floor
import Mathlib.Tactic.Ring

/-!
# Books of an account

Each step of an account marks it at a row with a price, and may buy or sell. From this follow, for
any arithmetic, the rows at which its trades begin and end: a sale is not before its purchase, and
the next purchase is after it. A mark is long exactly between the two.

Reckoned with rationals, the capital of an account is what it began with and what its trades have
brought in, less the fee that is paid for a position that is still open. A drawdown is a part of
the peak, which is never below the equity.
-/
namespace Flowline.Market

/-! ### Books in any arithmetic -/

def Terms.map (f : α → β) (t : Terms α) : Terms β :=
  ⟨f t.capital, f t.commission, f t.slippage, f t.share⟩

def Bar.map (f : α → β) (b : Bar α) : Bar β := ⟨b.time, b.price.map f, f b.signal⟩

@[simp] theorem Terms.map_id (t : Terms α) : t.map id = t := rfl

@[simp] theorem Bar.map_id (b : Bar α) : b.map id = b := by simp [Bar.map]

/-- The terms, the books and the report of a backtest, in the arithmetic of the numbers that its
floats are read as. -/
def Backtest.books [Arithmetic α] (read : Float → α) (params : Fields) (column : Value)
    (rows : List Fields) : Except Fault (Terms α × Account α × Performance α) := do
  let t := (← terms params).map read
  let a ← Account.run t (rows.map fun r => (barOf column r).map read)
  return (t, a, ← Performance.ofAccount t a rows.length)

/-- What a backtest answers with. -/
def Backtest.answer (t : Terms Float) (a : Account Float) (p : Performance Float)
    (rows : List Fields) : Except Fault Value := do
  return .map [("type", .str "backtest_results"),
    ("data", .map [("metrics", performanceValue p), ("trades", .list (a.trades.map tradeValue)),
      ("equity_curve", .list (a.marks.map markValue))]),
    ("metadata", .map [("initial_capital", .float t.capital), ("commission", .float t.commission),
      ("slippage", .float t.slippage), ("position_size", .float t.share),
      ("backtest_period", ← dateRange rows), ("total_periods", .ofNat rows.length)])]

/-- Once its rows are ready, a backtest answers with its books in floats, or fails as they do. -/
theorem Backtest.outcome_backtest {params inputs : Fields} {rows : List Fields}
    (h : (readyRows inputs (param params "signal_column" (.str "signal"))).outcome.1 = .ok rows) :
    (backtest params inputs).outcome.1 =
      books id params (param params "signal_column" (.str "signal")) rows >>=
        fun b => answer b.1 b.2.1 b.2.2 rows := by
  unfold backtest books answer
  dsimp only
  rw [Script.outcome_bind h]
  simp only [Script.after_lift_bind, Script.after_print_bind, Script.after_pure, bind_assoc,
    pure_bind, Terms.map_id, Bar.map_id]
  rfl

/-- The report states the capital of the account. -/
theorem Performance.ofAccount_capital [Arithmetic α] {t : Terms α} {a : Account α} {n : Nat}
    {p : Performance α} (h : ofAccount t a n = .ok p) : p.capital = a.capital := by
  obtain ⟨totalReturn, -, h⟩ := exists_of_bind_eq_ok h
  obtain ⟨sharpe, -, h⟩ := exists_of_bind_eq_ok h
  obtain ⟨annualReturn, -, h⟩ := exists_of_bind_eq_ok h
  dsimp only at h
  split at h
  · obtain rfl := Except.ok.inj h
    rfl
  · obtain ⟨meanReturn, -, h⟩ := exists_of_bind_eq_ok h
    obtain rfl := Except.ok.inj h
    rfl

/-! ### Spans of rows -/

/-- The rows from a purchase to its sale. -/
structure Span where
  entry : Nat
  exit : Nat
  le : entry ≤ exit

namespace Span

def IsBefore (s s' : Span) : Prop := s.exit < s'.entry

/-- The position is held at the row, bought or sold there at the latest. -/
def Meets (i : Nat) (s : Span) : Prop := s.entry ≤ i ∧ i ≤ s.exit

instance (i : Nat) (s : Span) : Decidable (Meets i s) := inferInstanceAs (Decidable (_ ∧ _))

/-- Of spans one before the other, at most one meets a row. -/
theorem countP_meets_le_one {spans : List Span} (h : spans.Pairwise IsBefore) (i : Nat) :
    spans.countP (Meets i) ≤ 1 := by
  induction spans with
  | nil => exact Nat.zero_le 1
  | cons s rest ih =>
    obtain ⟨hs, hrest⟩ := List.pairwise_cons.mp h
    rw [List.countP_cons]
    by_cases hi : s.Meets i
    · have hnone : rest.countP (Meets i) = 0 := by
        refine List.countP_eq_zero.mpr fun s' hs' hi' => ?_
        have hbefore : s.exit < s'.entry := hs s' hs'
        have hle : s'.entry ≤ i := (of_decide_eq_true hi').1
        exact absurd hi.2 (by omega)
      simp [hnone, hi]
    · simpa [hi] using ih hrest

end Span

namespace Account

section
variable {α : Type} {bars : List (Bar α)} {i : Nat} {b : Bar α} {price : α}

/-! ### Rows with a price -/

/-- The row has a price. -/
def IsPriced (bars : List (Bar α)) (i : Nat) (b : Bar α) (price : α) : Prop :=
  bars[i]? = some b ∧ b.price = some price

/-- The rows with a price, by their places. -/
def priced (bars : List (Bar α)) : List (Bar α × Nat) :=
  bars.zipIdx.filter fun b => b.1.price.isSome

theorem priced_concat (bars : List (Bar α)) (b : Bar α) :
    priced (bars ++ [b]) = priced bars ++ if b.price.isSome then [(b, bars.length)] else [] := by
  rw [priced, List.zipIdx_append, List.filter_append, ← priced, List.zipIdx_singleton, Nat.zero_add]
  cases hb : b.price.isSome <;> simp [hb]

theorem IsPriced.lt_length (h : IsPriced bars i b price) : i < bars.length :=
  (List.getElem?_eq_some_iff.mp h.1).1

theorem IsPriced.append (h : IsPriced bars i b price) (more : List (Bar α)) :
    IsPriced (bars ++ more) i b price :=
  ⟨by rw [List.getElem?_append_left h.lt_length, h.1], h.2⟩

theorem isPriced_concat (h : b.price = some price) :
    IsPriced (bars ++ [b]) bars.length b price := ⟨by simp, h⟩

theorem IsPriced.mem_priced (h : IsPriced bars i b price) : (b, i) ∈ priced bars := by
  refine List.mem_filter.mpr ⟨List.mem_zipIdx_iff_getElem?.mpr h.1, ?_⟩
  simp [h.2]

theorem lt_of_mem_priced {c : Bar α × Nat} (h : c ∈ priced bars) : c.2 < bars.length := by
  have := List.mem_zipIdx_iff_getElem?.mp (List.mem_filter.mp h).1
  exact (List.getElem?_eq_some_iff.mp this).1

end

variable {α : Type} [Arithmetic α] {t : Terms α} {a a' : Account α}
open Arithmetic

/-! ### Steps -/

/-- The account after a row with a price, before it trades. -/
def marked (a : Account α) (time : Value) (price : α) : Account α :=
  { a.mark time price with last := some (time, price) }

/-- What the purchase of a position is made of. -/
structure Bought (t : Terms α) (a : Account α) (time : Value) (price : α) (p : Position α) :
    Prop where
  time : p.entryTime = time
  price : p.entryPrice = price * (one + t.slippage)
  commission : p.commission = a.capital * t.share * t.commission
  quantity : quotient (a.capital * t.share - p.commission) p.entryPrice = .ok p.quantity

/-- What the sale of a position is made of. -/
structure Sold (t : Terms α) (p : Position α) (time : Value) (price : α) (d : Trade α) : Prop where
  entryTime : d.entryTime = p.entryTime
  entryPrice : d.entryPrice = p.entryPrice
  quantity : d.quantity = p.quantity
  time : d.exitTime = time
  price : d.exitPrice = price * (one - t.slippage)
  commission : d.commission = p.commission + d.exitPrice * p.quantity * t.commission
  profit : d.profit =
    (d.exitPrice - p.entryPrice) * p.quantity - d.exitPrice * p.quantity * t.commission
  returned : quotient d.profit (p.entryPrice * p.quantity) = .ok d.returned

theorem enter_eq_ok {time : Value} {price : α} (h : a.enter t time price = .ok a') :
    ∃ p, Bought t a time price p ∧
      a' = { a with position := some p, capital := a.capital - p.commission } := by
  obtain ⟨quantity, hquantity, hrest⟩ := exists_of_bind_eq_ok h
  obtain rfl := Except.ok.inj hrest
  exact ⟨⟨time, price * (one + t.slippage), quantity, a.capital * t.share * t.commission,
    a.capital * t.share * t.slippage⟩, ⟨rfl, rfl, rfl, hquantity⟩, rfl⟩

theorem settle_eq_ok {p : Position α} {time : Value} {price : α} {reason : ExitReason}
    {d : Trade α} (h : settle t p time price reason = .ok d) :
    Sold t p time price d ∧ d.reason = reason := by
  obtain ⟨returned, hreturned, hrest⟩ := exists_of_bind_eq_ok h
  obtain rfl := Except.ok.inj hrest
  exact ⟨⟨rfl, rfl, rfl, rfl, rfl, rfl, rfl, hreturned⟩, rfl⟩

/-- An account that is closed has sold its position, if it had one. -/
theorem close_eq_ok {time : Value} {price : α} {reason : ExitReason}
    (h : a.close t time price reason = .ok a') :
    (a.position = none ∧ a' = a) ∨ ∃ p d, a.position = some p ∧ Sold t p time price d ∧
      d.reason = reason ∧
      a' = { a with
        position := none, capital := a.capital + d.profit, trades := a.trades ++ [d] } := by
  unfold close at h
  split at h
  · rename_i hp
    exact .inl ⟨hp, (Except.ok.inj h).symm⟩
  · rename_i p hp
    obtain ⟨d, hd, hrest⟩ := exists_of_bind_eq_ok h
    obtain ⟨hsold, hreason⟩ := settle_eq_ok hd
    exact .inr ⟨p, d, hp, hsold, hreason, (Except.ok.inj hrest).symm⟩

theorem step_eq_self {b : Bar α} (hb : b.price = none) : step t a b = .ok a := by
  unfold step
  rw [hb]

/-- At a row with a price an account is marked first; only then does it buy, sell or wait. -/
theorem step_eq {b : Bar α} {price : α} (hb : b.price = some price) :
    step t a b =
      if less zero b.signal && a.position.isNone then
        (a.marked b.time price).enter t b.time price
      else if less b.signal zero then (a.marked b.time price).close t b.time price .signal
      else .ok (a.marked b.time price) := by
  unfold step
  rw [hb]
  rfl

/-- What a step can do: pass over a row without a price, or mark it, and then buy, sell or wait. -/
theorem step_eq_ok {b : Bar α} (h : step t a b = .ok a') :
    (b.price = none ∧ a' = a) ∨ ∃ price, b.price = some price ∧
      ((a.position = none ∧ less zero b.signal = true ∧
          (a.marked b.time price).enter t b.time price = .ok a') ∨
        (less b.signal zero = true ∧ (a.marked b.time price).close t b.time price .signal = .ok a') ∨
        a' = a.marked b.time price) := by
  cases hprice : b.price with
  | none => exact .inl ⟨rfl, (Except.ok.inj ((step_eq_self hprice).symm.trans h)).symm⟩
  | some price =>
    rw [step_eq hprice] at h
    refine .inr ⟨price, rfl, ?_⟩
    split at h
    · rename_i hbuy
      rw [Bool.and_eq_true, Option.isNone_iff_eq_none] at hbuy
      exact .inl ⟨hbuy.2, hbuy.1, h⟩
    · split at h
      · rename_i hsell
        exact .inr (.inl ⟨hsell, h⟩)
      · exact .inr (.inr (Except.ok.inj h).symm)

/-- What holds of a new account and is kept by steps holds after all rows. -/
theorem foldlM_induction {P : List (Bar α) → Account α → Prop} {bars : List (Bar α)}
    (hopening : P [] (opening t))
    (hstep : ∀ before b a a', P before a → step t a b = .ok a' → P (before ++ [b]) a')
    (h : bars.foldlM (step t) (opening t) = .ok a) : P bars a := by
  suffices hrun : ∀ before a₀, P before a₀ → bars.foldlM (step t) a₀ = .ok a → P (before ++ bars) a
    from hrun [] (opening t) hopening h
  clear hopening h
  induction bars with
  | nil =>
    intro before a₀ hbefore h
    obtain rfl := Except.ok.inj h
    rwa [List.append_nil]
  | cons b rest ih =>
    intro before a₀ hbefore h
    rw [List.foldlM_cons] at h
    obtain ⟨a₁, ha₁, hrest⟩ := exists_of_bind_eq_ok h
    have := ih (before ++ [b]) a₁ (hstep before b a₀ a₁ hbefore ha₁) hrest
    rwa [List.append_assoc, List.singleton_append] at this

/-! ### Rows of trades -/

/-- The position was bought at the row, on a positive signal. -/
def BoughtAt (t : Terms α) (bars : List (Bar α)) (i : Nat) (p : Position α) : Prop :=
  ∃ b price, IsPriced bars i b price ∧ less zero b.signal = true ∧ p.entryTime = b.time ∧
    p.entryPrice = price * (one + t.slippage)

/-- The trade goes from one row to another; if a signal ends it, that is negative. -/
structure Covers (t : Terms α) (bars : List (Bar α)) (d : Trade α) (s : Span) : Prop where
  bought : BoughtAt t bars s.entry d.toPosition
  sold : ∃ b price, IsPriced bars s.exit b price ∧ d.exitTime = b.time ∧
    d.exitPrice = price * (one - t.slippage) ∧ (d.reason = .signal → less b.signal zero = true)

/-- At the row, before it trades, the account holds a position that it has sold since or not. -/
def IsHeld (spans : List Span) (bought? : Option Nat) (i : Nat) : Prop :=
  (∃ s ∈ spans, s.entry < i ∧ i ≤ s.exit) ∨ ∃ entry, bought? = some entry ∧ entry < i

/-- What the account has recorded agrees with the rows: its trades cover spans one before the
other, its position was bought after them, and there is a mark at each row with a price. -/
structure Recorded (t : Terms α) (bars : List (Bar α)) (spans : List Span) (bought? : Option Nat)
    (a : Account α) : Prop where
  trades : List.Forall₂ (Covers t bars) a.trades spans
  apart : spans.Pairwise Span.IsBefore
  within : ∀ s ∈ spans, s.exit < bars.length
  position : Option.Rel (fun i p => BoughtAt t bars i p ∧ ∀ s ∈ spans, s.exit < i) bought? a.position
  marks : List.Forall₂ (fun m b => m.time = b.1.time ∧ (m.isLong = true ↔ IsHeld spans bought? b.2))
    a.marks (priced bars)
  last : Option.elim a.last (priced bars = []) fun l => ∃ i b, IsPriced bars i b l.2 ∧ b.time = l.1 ∧
    ∀ c ∈ priced bars, c.2 ≤ i

variable {bars : List (Bar α)} {spans : List Span} {bought? : Option Nat} {i : Nat} {b : Bar α}
  {price : α}

theorem BoughtAt.append {p : Position α} (h : BoughtAt t bars i p) (more : List (Bar α)) :
    BoughtAt t (bars ++ more) i p := by
  obtain ⟨b, price, hpriced, hrest⟩ := h
  exact ⟨b, price, hpriced.append more, hrest⟩

theorem Covers.append {d : Trade α} {s : Span} (h : Covers t bars d s) (more : List (Bar α)) :
    Covers t (bars ++ more) d s := by
  obtain ⟨b, price, hpriced, hrest⟩ := h.sold
  exact ⟨h.bought.append more, b, price, hpriced.append more, hrest⟩

theorem recorded_opening : Recorded t [] [] none (opening t) :=
  ⟨.nil, .nil, fun _ hs => (nomatch hs), .none, .nil, rfl⟩

namespace Recorded

theorem bought_eq_none (h : Recorded t bars spans bought? a) (hposition : a.position = none) :
    bought? = none := by
  have hrel := h.position
  rw [hposition] at hrel
  cases hrel
  rfl

/-- The position was bought after all spans. -/
theorem exists_bought (h : Recorded t bars spans bought? a) {p : Position α}
    (hposition : a.position = some p) :
    ∃ entry, bought? = some entry ∧ BoughtAt t bars entry p ∧ ∀ s ∈ spans, s.exit < entry := by
  have hrel := h.position
  rw [hposition] at hrel
  cases hrel with
  | some hp => exact ⟨_, rfl, hp⟩

/-- Rows that are added change nothing of what is recorded, except what has no price yet. -/
theorem trades_append (h : Recorded t bars spans bought? a) (more : List (Bar α)) :
    List.Forall₂ (Covers t (bars ++ more)) a.trades spans :=
  h.trades.imp fun _ _ hd => hd.append more

theorem position_append (h : Recorded t bars spans bought? a) (more : List (Bar α)) :
    Option.Rel (fun i p => BoughtAt t (bars ++ more) i p ∧ ∀ s ∈ spans, s.exit < i) bought?
      a.position := by
  have hposition := h.position
  generalize a.position = position at hposition ⊢
  cases hposition with
  | none => exact .none
  | some hp => exact .some ⟨hp.1.append more, hp.2⟩

theorem within_append (h : Recorded t bars spans bought? a) (more : List (Bar α)) :
    ∀ s ∈ spans, s.exit < (bars ++ more).length := fun s hs =>
  Nat.lt_of_lt_of_le (h.within s hs) (by simp)

/-- A row without a price is passed over. -/
theorem pass (h : Recorded t bars spans bought? a) (hb : b.price = none) :
    Recorded t (bars ++ [b]) spans bought? a := by
  have hpriced : priced (bars ++ [b]) = priced bars := by simp [priced_concat, hb]
  refine ⟨h.trades_append _, h.apart, h.within_append _, h.position_append _, ?_, ?_⟩
  · rw [hpriced]
    exact h.marks
  · rw [hpriced]
    have hlast := h.last
    cases hl : a.last with
    | none => rwa [hl] at hlast
    | some l =>
      rw [hl] at hlast
      obtain ⟨i, c, hc, hrest⟩ := hlast
      exact ⟨i, c, hc.append _, hrest⟩

theorem isHeld_iff (h : Recorded t bars spans bought? a) :
    IsHeld spans bought? bars.length ↔ a.position.isSome = true := by
  have hno : ¬ ∃ s ∈ spans, s.entry < bars.length ∧ bars.length ≤ s.exit := fun ⟨s, hs, _, hle⟩ =>
    absurd (h.within s hs) (by omega)
  unfold IsHeld
  cases hposition : a.position with
  | none => simp [hno, h.bought_eq_none hposition]
  | some p =>
    obtain ⟨entry, rfl, ⟨b, price, hb, -⟩, -⟩ := h.exists_bought hposition
    have hlt : entry < bars.length := hb.lt_length
    simpa [hno] using hlt

/-- A row with a price is marked. -/
theorem mark (h : Recorded t bars spans bought? a) (hb : b.price = some price) :
    Recorded t (bars ++ [b]) spans bought? (a.marked b.time price) := by
  have hpriced : priced (bars ++ [b]) = priced bars ++ [(b, bars.length)] := by
    simp [priced_concat, hb]
  refine ⟨h.trades_append _, h.apart, h.within_append _, h.position_append _, ?_,
    bars.length, b, isPriced_concat hb, rfl, ?_⟩
  · rw [hpriced]
    exact List.rel_append h.marks (.cons ⟨rfl, h.isHeld_iff.symm⟩ .nil)
  · rw [hpriced]
    intro c hc
    rcases List.mem_append.mp hc with hc | hc
    · exact Nat.le_of_lt (lt_of_mem_priced hc)
    · exact Nat.le_of_eq (congrArg Prod.snd (List.mem_singleton.mp hc))

/-- Marks stay as they are if the rows at which a position is held do. -/
theorem marks_congr (h : Recorded t bars spans bought? a) {spans' : List Span}
    {bought?' : Option Nat}
    (hheld : ∀ c ∈ priced bars, IsHeld spans bought? c.2 ↔ IsHeld spans' bought?' c.2) :
    List.Forall₂ (fun m b => m.time = b.1.time ∧ (m.isLong = true ↔ IsHeld spans' bought?' b.2))
      a.marks (priced bars) := by
  have hboth := (List.forall₂_and_left (p := fun c : Bar α × Nat =>
    IsHeld spans bought? c.2 ↔ IsHeld spans' bought?' c.2) _ _).mpr ⟨hheld, h.marks.flip⟩
  exact (hboth.imp fun c m hm => ⟨hm.2.1, hm.2.2.trans hm.1⟩).flip

/-- A purchase at the last row with a price. -/
theorem buy (h : Recorded t bars spans none a) {p : Position α} (hp : BoughtAt t bars i p)
    (hlast : ∀ c ∈ priced bars, c.2 ≤ i) (hspans : ∀ s ∈ spans, s.exit < i) (capital : α) :
    Recorded t bars spans (some i) { a with position := some p, capital } := by
  refine ⟨h.trades, h.apart, h.within, .some ⟨hp, hspans⟩, h.marks_congr fun c hc => ?_, h.last⟩
  have hle := hlast c hc
  simp only [IsHeld, Option.some.injEq, reduceCtorEq, false_and, exists_false, or_false,
    exists_eq_left', iff_self_or]
  omega

/-- A sale at the last row with a price. -/
theorem sell (h : Recorded t bars spans bought? a) {p : Position α} (hposition : a.position = some p)
    {l : Value × α} (hl : a.last = some l) {d : Trade α} (hd : Sold t p l.1 l.2 d)
    (hreason : d.reason = .signal → ∀ i b, IsPriced bars i b l.2 → (∀ c ∈ priced bars, c.2 ≤ i) →
      less b.signal zero = true) (capital : α) :
    ∃ spans', Recorded t bars spans' none
      { a with position := none, capital, trades := a.trades ++ [d] } := by
  have hlast := h.last
  rw [hl] at hlast
  obtain ⟨exit, b, hb, htime, hmax⟩ := hlast
  obtain ⟨entry, rfl, ⟨c, price, hc, hsignal, hentryTime, hentryPrice⟩, hafter⟩ :=
    h.exists_bought hposition
  have hle : entry ≤ exit := hmax _ hc.mem_priced
  have hcovers : Covers t bars d ⟨entry, exit, hle⟩ :=
    ⟨⟨c, price, hc, hsignal, hd.entryTime.trans hentryTime, hd.entryPrice.trans hentryPrice⟩,
      b, l.2, hb, hd.time.trans htime.symm, hd.price, fun hr => hreason hr exit b hb hmax⟩
  refine ⟨spans ++ [⟨entry, exit, hle⟩], List.rel_append h.trades (.cons hcovers .nil),
    ?_, ?_, .none, h.marks_congr fun c hc => ?_, h.last⟩
  · refine List.pairwise_append.mpr ⟨h.apart, List.pairwise_singleton _ _, fun s hs s' hs' => ?_⟩
    obtain rfl := List.mem_singleton.mp hs'
    exact hafter s hs
  · intro s hs
    rcases List.mem_append.mp hs with hs | hs
    · exact h.within s hs
    · obtain rfl := List.mem_singleton.mp hs
      exact hb.lt_length
  · have hexit := hmax c hc
    simp [IsHeld, or_and_right, exists_or, hexit]

/-- A step keeps the records. -/
theorem step (h : Recorded t bars spans bought? a) (hstep : step t a b = .ok a') :
    ∃ spans' bought?', Recorded t (bars ++ [b]) spans' bought?' a' := by
  obtain ⟨hprice, rfl⟩ | ⟨price, hprice, ⟨hposition, hsignal, henter⟩ | ⟨hsignal, hclose⟩ | rfl⟩ :=
    step_eq_ok hstep
  · exact ⟨spans, bought?, h.pass hprice⟩
  · -- the account holds nothing, and buys
    obtain ⟨p, hp, rfl⟩ := enter_eq_ok henter
    have hmark := h.mark hprice
    obtain rfl : bought? = none := h.bought_eq_none hposition
    refine ⟨spans, some bars.length, hmark.buy ⟨b, price, isPriced_concat hprice, hsignal, hp.time,
      hp.price⟩ (fun c hc => ?_) h.within _⟩
    have hlt := lt_of_mem_priced hc
    rw [List.length_append, List.length_singleton] at hlt
    omega
  · -- the account sells what it holds
    have hmark := h.mark hprice
    obtain ⟨-, rfl⟩ | ⟨p, d, hposition, hd, -, rfl⟩ := close_eq_ok hclose
    · exact ⟨spans, bought?, hmark⟩
    · -- no row before this one is the last with a price
      have hlast : ∀ i c, IsPriced (bars ++ [b]) i c price →
          (∀ c ∈ priced (bars ++ [b]), c.2 ≤ i) → less c.signal zero = true := by
        intro i c hc hmax
        have hle : bars.length ≤ i := hmax _ (isPriced_concat hprice).mem_priced
        have hlt := hc.lt_length
        rw [List.length_append, List.length_singleton] at hlt
        obtain rfl : i = bars.length := by omega
        have hcb : some b = some c := by simpa using hc.1
        rwa [← Option.some.inj hcb]
      obtain ⟨spans', hspans'⟩ := hmark.sell hposition rfl hd (fun _ => hlast) _
      exact ⟨spans', none, hspans'⟩
  · exact ⟨spans, bought?, h.mark hprice⟩

/-- A position was bought at a row with a price. -/
theorem last_of_position (h : Recorded t bars spans bought? a) {p : Position α}
    (hposition : a.position = some p) : a.last.isSome = true := by
  obtain ⟨entry, -, ⟨b, price, hb, -⟩, -⟩ := h.exists_bought hposition
  have hlast := h.last
  cases hl : a.last with
  | some l => rfl
  | none =>
    rw [hl] at hlast
    have hmem := hb.mem_priced
    rw [show priced bars = [] from hlast] at hmem
    cases hmem

/-- Closing at the end keeps the records, and leaves no position open. -/
theorem finish (h : Recorded t bars spans bought? a) (hfinish : finish t a = .ok a') :
    a'.position = none ∧ ∃ spans', Recorded t bars spans' none a' := by
  unfold Account.finish at hfinish
  split at hfinish
  · rename_i hlast
    obtain rfl := Except.ok.inj hfinish
    have hposition : a.position = none := by
      by_contra hsome
      obtain ⟨p, hp⟩ := Option.ne_none_iff_exists'.mp hsome
      have hseen := h.last_of_position hp
      rw [hlast] at hseen
      cases hseen
    exact ⟨hposition, spans, h.bought_eq_none hposition ▸ h⟩
  · rename_i time price hl
    obtain ⟨hposition, rfl⟩ | ⟨p, d, hposition, hd, hreason, rfl⟩ := close_eq_ok hfinish
    · exact ⟨hposition, spans, h.bought_eq_none hposition ▸ h⟩
    · refine ⟨rfl, h.sell hposition hl hd (fun hr => ?_) _⟩
      cases hreason.symm.trans hr

end Recorded

/-- What an account has recorded after some rows. -/
theorem foldlM_recorded (h : bars.foldlM (step t) (opening t) = .ok a) :
    ∃ spans bought?, Recorded t bars spans bought? a :=
  foldlM_induction (P := fun bars a => ∃ spans bought?, Recorded t bars spans bought? a)
    ⟨[], none, recorded_opening⟩ (fun _ _ _ _ ⟨_, _, h⟩ hstep => h.step hstep) h

/-- What it has recorded when all rows are done. -/
theorem run_recorded (h : run t bars = .ok a) :
    a.position = none ∧ ∃ spans, Recorded t bars spans none a := by
  obtain ⟨before, hbefore, hfinish⟩ := exists_of_bind_eq_ok h
  obtain ⟨spans, bought?, hrecorded⟩ := foldlM_recorded hbefore
  exact hrecorded.finish hfinish

end Account

/-! ### Exact arithmetic -/

/-- Roots and powers of rationals, rounded in some way. -/
class Roots where
  sqrt : ℚ → ℚ
  power? : ℚ → ℚ → Option ℚ

instance rational [Roots] : Arithmetic ℚ where
  ofInt n := n
  ofInt? n := .ok n
  less a b := decide (a < b)
  equal a b := decide (a = b)
  sqrt := Roots.sqrt
  power? := Roots.power?
  floor a := ⌊a⌋₊

namespace Account

variable [Roots] {t : Terms ℚ} {a a' : Account ℚ} {p : Position ℚ} {d : Trade ℚ}
open Arithmetic

@[simp] theorem zero_eq : (zero : ℚ) = 0 := Int.cast_zero

@[simp] theorem one_eq : (one : ℚ) = 1 := Int.cast_one

theorem isZero_eq_decide (x : ℚ) : isZero x = decide (x = 0) := by
  rw [isZero, zero_eq]
  rfl

theorem le_larger_right (x y : ℚ) : y ≤ larger x y := by
  unfold larger
  split
  · exact le_rfl
  · rename_i h
    exact not_lt.mp fun hlt => h (decide_eq_true hlt)

/-- A position is worth what is put into it, less the fee. -/
theorem Bought.value {time : Value} {price : ℚ} (h : Bought t a time price p) :
    p.entryPrice * p.quantity = a.capital * t.share * (1 - t.commission) := by
  have hquantity := h.quantity
  unfold quotient at hquantity
  rw [isZero_eq_decide] at hquantity
  split at hquantity
  · cases hquantity
  · rename_i hprice
    have hprice : p.entryPrice ≠ 0 := by simpa using hprice
    rw [← Except.ok.inj hquantity, h.commission]
    calc p.entryPrice * ((a.capital * t.share - a.capital * t.share * t.commission) / p.entryPrice)
        = a.capital * t.share - a.capital * t.share * t.commission := mul_div_cancel₀ _ hprice
      _ = a.capital * t.share * (1 - t.commission) := by ring

/-- So it is worth nothing exactly if nothing is put into it, or the fee takes all. -/
theorem Bought.value_eq_zero_iff {time : Value} {price : ℚ} (h : Bought t a time price p) :
    p.entryPrice * p.quantity = 0 ↔ a.capital = 0 ∨ t.share = 0 ∨ t.commission = 1 := by
  rw [h.value, mul_eq_zero, mul_eq_zero, sub_eq_zero, or_assoc, eq_comm (a := (1 : ℚ))]

/-- What a trade brings in. -/
def gain (d : Trade ℚ) : ℚ := (d.exitPrice - d.entryPrice) * d.quantity - d.commission

/-- The fee that is paid for the open position. -/
def openFee (a : Account ℚ) : ℚ := (a.position.map Position.commission).getD 0

structure Balanced (t : Terms ℚ) (a : Account ℚ) : Prop where
  cash : a.capital = t.capital + (a.trades.map gain).sum - a.openFee
  drawdown : ∀ m ∈ a.marks, 0 ≤ m.equity → 0 ≤ m.drawdown ∧ m.drawdown ≤ 1

omit [Roots] in
theorem balanced_opening (t : Terms ℚ) : Balanced t (opening t) :=
  ⟨by simp [opening, openFee], fun _ hm => nomatch hm⟩

/-- A drawdown is a part of the peak. -/
theorem drawdown_bounds {equity peak : ℚ} (hle : equity ≤ peak) (h : 0 ≤ equity) :
    0 ≤ (if isZero peak then zero else (peak - equity) / peak) ∧
      (if isZero peak then zero else (peak - equity) / peak) ≤ 1 := by
  rw [isZero_eq_decide]
  by_cases hzero : peak = 0
  · simp [hzero]
  · have hpeak : 0 < peak := lt_of_le_of_ne (h.trans hle) (Ne.symm hzero)
    simp only [hzero, decide_false, Bool.false_eq_true, if_false]
    exact ⟨div_nonneg (sub_nonneg.mpr hle) hpeak.le, (div_le_one hpeak).mpr (sub_le_self peak h)⟩

theorem Balanced.mark (h : Balanced t a) (time : Value) (price : ℚ) :
    Balanced t (a.marked time price) := by
  refine ⟨h.cash, fun m hm => ?_⟩
  rcases List.mem_append.mp hm with hm | hm
  · exact h.drawdown m hm
  · obtain rfl := List.mem_singleton.mp hm
    exact drawdown_bounds (le_larger_right a.peak (a.equity price))

omit [Roots] in
/-- The fee of a purchase is paid at once. -/
theorem Balanced.buy (h : Balanced t a) (hposition : a.position = none) (p : Position ℚ) :
    Balanced t { a with position := some p, capital := a.capital - p.commission } := by
  have hcash := h.cash
  simp only [openFee, hposition] at hcash
  refine ⟨?_, h.drawdown⟩
  simp [openFee, hcash]

/-- A sale brings in the difference of the prices, less the fee of the sale. -/
theorem Balanced.sell {time : Value} {price : ℚ} (h : Balanced t a) (hposition : a.position = some p)
    (hd : Sold t p time price d) :
    Balanced t { a with
      position := none, capital := a.capital + d.profit, trades := a.trades ++ [d] } := by
  have hcash := h.cash
  simp only [openFee, hposition] at hcash
  refine ⟨?_, h.drawdown⟩
  simp only [openFee, List.map_append, List.sum_append, List.map_singleton, List.sum_singleton, gain,
    hd.profit, hd.commission, hd.entryPrice, hd.quantity, hcash, Option.map_none, Option.map_some,
    Option.getD_none, Option.getD_some]
  ring

theorem Balanced.close {time : Value} {price : ℚ} {reason : ExitReason} (h : Balanced t a)
    (hclose : a.close t time price reason = .ok a') : Balanced t a' := by
  obtain ⟨-, rfl⟩ | ⟨p, d, hposition, hd, -, rfl⟩ := close_eq_ok hclose
  · exact h
  · exact h.sell hposition hd

theorem Balanced.step {b : Bar ℚ} (h : Balanced t a) (hstep : step t a b = .ok a') :
    Balanced t a' := by
  obtain ⟨-, rfl⟩ | ⟨price, -, ⟨hposition, -, henter⟩ | ⟨-, hclose⟩ | rfl⟩ := step_eq_ok hstep
  · exact h
  · obtain ⟨p, -, rfl⟩ := enter_eq_ok henter
    exact (h.mark b.time price).buy hposition p
  · exact (h.mark b.time price).close hclose
  · exact h.mark b.time price

theorem run_balanced {bars : List (Bar ℚ)} (h : run t bars = .ok a) : Balanced t a := by
  obtain ⟨before, hbefore, hfinish⟩ := exists_of_bind_eq_ok h
  have hbalanced : Balanced t before := foldlM_induction (P := fun _ a => Balanced t a)
    (balanced_opening t) (fun _ _ _ _ h hstep => h.step hstep) hbefore
  unfold Account.finish at hfinish
  split at hfinish
  · exact Except.ok.inj hfinish ▸ hbalanced
  · exact hbalanced.close hfinish

end Account

namespace Backtest

/-- Books that balance: all trades are closed and apart from each other, each row with a close has
a mark, and the capital is what it began with and what the trades have brought in. -/
structure BooksBalance [Roots] (t : Terms ℚ) (bars : List (Bar ℚ)) (a : Account ℚ)
    (p : Performance ℚ) : Prop where
  closed : a.position = none
  spans : ∃ spans : List Span, List.Forall₂ (Account.Covers t bars) a.trades spans ∧
    spans.Pairwise Span.IsBefore ∧ (∀ i, spans.countP (Span.Meets i) ≤ 1) ∧
    List.Forall₂ (fun m b => m.time = b.1.time ∧
      (m.isLong = true ↔ ∃ s ∈ spans, s.entry < b.2 ∧ b.2 ≤ s.exit)) a.marks (Account.priced bars)
  drawdown : ∀ m ∈ a.marks, 0 ≤ m.equity → 0 ≤ m.drawdown ∧ m.drawdown ≤ 1
  cash : p.capital = t.capital +
    (a.trades.map fun d => (d.exitPrice - d.entryPrice) * d.quantity - d.commission).sum

theorem map_fst_priced (bars : List (Bar α)) :
    (Account.priced bars).map (·.1) = bars.filter fun b => b.price.isSome := by
  have hfilter := List.filter_map (f := Prod.fst) (p := fun b : Bar α => b.price.isSome)
    (l := bars.zipIdx)
  rw [List.zipIdx_map_fst] at hfilter
  exact hfilter.symm

/-- The books of a backtest balance in rationals, whatever its terms and rows, if it does not
fail. -/
theorem books_balance [Roots] (read : Float → ℚ) {params : Fields} {column : Value}
    {rows : List Fields} {t : Terms ℚ} {a : Account ℚ} {p : Performance ℚ}
    (h : books read params column rows = .ok (t, a, p)) :
    BooksBalance t (rows.map fun r => (barOf column r).map read) a p ∧
      a.marks.map Mark.time = (rows.filter fun r => (number (field r "close")).isSome).map
        fun r => field r "timestamp" := by
  obtain ⟨t₀, -, h⟩ := exists_of_bind_eq_ok h
  obtain ⟨a₀, hrun, h⟩ := exists_of_bind_eq_ok h
  obtain ⟨p₀, hreport, h⟩ := exists_of_bind_eq_ok h
  obtain ⟨rfl, rfl, rfl⟩ : t₀.map read = t ∧ a₀ = a ∧ p₀ = p := by simpa using Except.ok.inj h
  obtain ⟨hclosed, spans, hspans⟩ := Account.run_recorded hrun
  have hbalanced := Account.run_balanced hrun
  have hmarks := hspans.marks
  simp only [Account.IsHeld, reduceCtorEq, false_and, exists_false, or_false] at hmarks
  refine ⟨⟨hclosed, ⟨spans, hspans.trades, hspans.apart, Span.countP_meets_le_one hspans.apart,
    hmarks⟩, hbalanced.drawdown, ?_⟩, ?_⟩
  · have hcash := hbalanced.cash
    rw [Account.openFee, hclosed, Option.map_none, Option.getD_none, sub_zero] at hcash
    rw [Performance.ofAccount_capital hreport, hcash]
    rfl
  · let bars := rows.map fun r => (barOf column r).map read
    have htimes : a₀.marks.map Mark.time = ((Account.priced bars).map (·.1)).map Bar.time := by
      rw [List.map_map, ← List.forall₂_eq_eq_eq]
      exact List.forall₂_map_left_iff.mpr (List.forall₂_map_right_iff.mpr
        (hmarks.imp fun _ _ hm => hm.1))
    have hpriced : ∀ r, (((barOf column r).map read).price.isSome) =
        (number (field r "close")).isSome := fun r => Option.isSome_map
    rw [htimes, map_fst_priced, List.filter_map, List.map_map]
    simp only [Function.comp_def, hpriced]
    rfl

/-- The rational that a float stands for; what is not finite counts as zero. -/
def rationalOf (x : Float) : ℚ :=
  match x.toModel.unpack with
  | .finite s m e _ =>
    let n : Int := match s with
      | .negative => -m
      | .positive => m
    if 0 ≤ e then n * 2 ^ e.toNat else mkRat n (2 ^ (-e).toNat)
  | _ => 0

/-- The whole parts of roots, and powers with whole exponents. -/
@[reducible] def wholeRoots : Roots where
  sqrt x := (Nat.sqrt ⌊x⌋₊ : ℚ)
  power? x y := if y.den = 1 then some (x ^ y.num.toNat) else none

def tradedRow (time : Int) (close : Value) (signal : Int) : Fields :=
  [("timestamp", .int time), ("close", close), ("signal", .int signal)]

/-- Two trades, of which the second is still open at the end; a row without a price in between. -/
def tradedRows : List Fields :=
  [tradedRow 1 (.int 100) 1, tradedRow 2 .null 0, tradedRow 3 (.int 110) (-1),
    tradedRow 4 (.int 90) 1, tradedRow 5 (.int 95) 0]

theorem tradedRows_balance :
    letI := wholeRoots
    ∃ t a p, books rationalOf [] (.str "signal") tradedRows = .ok (t, a, p) ∧
      BooksBalance t (tradedRows.map fun r => (barOf (.str "signal") r).map rationalOf) a p ∧
      a.trades.length = 2 ∧ a.marks.length = 4 := by
  have hok : ((@books ℚ (@rational wholeRoots) rationalOf [] (.str "signal") tradedRows).toOption.map
      fun b => (b.2.1.trades.length, b.2.1.marks.length)) = some (2, 4) := by decide +kernel
  let _ := wholeRoots
  cases hbooks : books rationalOf [] (.str "signal") tradedRows with
  | error fault =>
    rw [hbooks] at hok
    cases hok
  | ok b =>
    obtain ⟨t, a, p⟩ := b
    rw [hbooks] at hok
    obtain ⟨htrades, hmarks⟩ := Prod.mk.inj (Option.some.inj hok)
    exact ⟨t, a, p, rfl, (books_balance rationalOf hbooks).1, htrades, hmarks⟩

end Backtest
end Flowline.Market
