import Flowline.Proofs.Sandbox.Tracking
import Flowline.Sandbox.Calls

/-!
# Tracking is exact

However the calls that run units interleave with each other and with what stops runs, the list of live
units has each unit from its registration until it is taken off, and stopping a run reaches just the
units listed under it.
-/
namespace Flowline

namespace UnitCall

variable {c : UnitCall} {t t' : Tracking} {m : UnitMove} {phase : UnitPhase}

theorem slot?_fst {e : String × Nat} (h : c.slot? = some e) : e.1 = c.unit := by
  unfold slot? at h
  split at h <;> cases h <;> rfl

/-- What a move does to the list of live units. -/
theorem act_cases (h : c.act t m = some (phase, t')) :
    (t' = t ∧ { c with phase }.slot? = c.slot? ∧ { c with phase }.isBetween = c.isBetween) ∨
    (c.phase = .preparing ∧ phase = .live t.nextMark ∧ t' = t.register c.run c.unit c.context) ∨
    (∃ mark ending, c.phase = .leaving mark ending ∧ phase = .removed ending ∧
      t' = t.removeUnit c.run c.unit) ∨
    (∃ ending, c.phase = .removed ending ∧ phase = .closing ending ∧ t' = t.removeRun c.run) := by
  obtain ⟨run, unit, context, now⟩ := c
  cases m with
  | register =>
    cases now <;> cases h
    exact .inr (.inl ⟨rfl, rfl, rfl⟩)
  | fail e =>
    cases now <;> cases h
    exact .inl ⟨rfl, rfl, rfl⟩
  | leave ending =>
    cases now with
    | live mark =>
      obtain ⟨-, h⟩ := Option.ite_none_right_eq_some.mp h
      cases h
      exact .inl ⟨rfl, rfl, rfl⟩
    | _ => cases h
  | giveUp =>
    cases now <;> cases h
    all_goals exact .inl ⟨rfl, rfl, rfl⟩
  | removeUnit =>
    cases now <;> cases h
    exact .inr (.inr (.inl ⟨_, _, rfl, rfl, rfl⟩))
  | removeRun =>
    cases now <;> cases h
    exact .inr (.inr (.inr ⟨_, rfl, rfl, rfl⟩))
  | close =>
    cases now <;> cases h
    exact .inl ⟨rfl, rfl, rfl⟩

end UnitCall

namespace UnitCalls

/-! ### The units of the calls -/

/-- The units that calls of a run have registered and not taken off yet. -/
def entriesOf (run : String) (calls : List UnitCall) : List (String × Nat) :=
  calls.filterMap fun c => if c.run = run then c.slot? else none

variable {t t' : Tracking} {calls before behind : List UnitCall} {c : UnitCall} {run unit : String}

theorem mem_entriesOf {e : String × Nat} :
    e ∈ entriesOf run calls ↔ ∃ c ∈ calls, c.run = run ∧ c.slot? = some e := by
  simp [entriesOf]

theorem entriesOf_middle (run : String) (before behind : List UnitCall) (c : UnitCall) :
    entriesOf run (before ++ c :: behind) = entriesOf run before ++
      (if c.run = run then c.slot? else none).toList ++ entriesOf run behind := by
  rw [entriesOf, List.filterMap_append, List.filterMap_cons]
  cases hentry : if c.run = run then c.slot? else none with
  | none => simp [entriesOf]
  | some e => simp [entriesOf]

/-- A call that has nothing listed does not show. -/
theorem entriesOf_middle_none (h : c.slot? = none) (run : String) :
    entriesOf run (before ++ c :: behind) = entriesOf run (before ++ behind) := by
  rw [entriesOf_middle, h, ite_self, Option.toList_none, List.append_nil, entriesOf, entriesOf,
    entriesOf, List.filterMap_append]

theorem entriesOf_middle_some {e : String × Nat} (h : c.slot? = some e) :
    (entriesOf c.run (before ++ c :: behind)).Perm (e :: entriesOf c.run (before ++ behind)) := by
  rw [entriesOf_middle, if_pos rfl, h, Option.toList_some, List.append_assoc, entriesOf, entriesOf,
    entriesOf, List.filterMap_append]
  exact List.perm_middle

theorem filter_entriesOf (h : unit ∉ calls.map (·.unit)) (run : String) :
    (entriesOf run calls).filter (·.1 != unit) = entriesOf run calls := by
  refine List.filter_eq_self.mpr fun e he => bne_iff_ne.mpr ?_
  obtain ⟨c, hc, -, hentry⟩ := mem_entriesOf.mp he
  rintro rfl
  exact h (List.mem_map.mpr ⟨c, hc, (UnitCall.slot?_fst hentry).symm⟩)

/-! ### The table and the calls -/

/-- The table lists what calls have registered and not taken off, and a run without units only while a
call stands between the two steps of taking its own off. -/
structure Lists (t : Tracking) (calls : List UnitCall) : Prop where
  table : t.IsTable
  units : ∀ run, (t.units run).Perm (entriesOf run calls)
  emptied : ∀ run, t.runs.lookup run = some [] → ∃ c ∈ calls, c.run = run ∧ c.isBetween = true
  named : (calls.map (·.unit)).Nodup

theorem lists_nil : Lists {} [] where
  table := List.nodup_nil
  units _ := .nil
  emptied _ h := by cases h
  named := List.nodup_nil

/-- The marks do not matter. -/
theorem Lists.congr (h : Lists t calls) (hruns : t'.runs = t.runs) : Lists t' calls := by
  obtain ⟨runs, marks⟩ := t
  obtain ⟨runs', marks'⟩ := t'
  obtain rfl := hruns
  exact ⟨h.table, h.units, h.emptied, h.named⟩

theorem Lists.not_mem_unit (h : Lists t (before ++ c :: behind)) :
    c.unit ∉ (before ++ behind).map (·.unit) := by
  have hnamed := h.named
  rw [List.map_append, List.map_cons, List.nodup_middle, ← List.map_append] at hnamed
  exact (List.nodup_cons.mp hnamed).1

theorem Lists.named_middle (h : Lists t (before ++ c :: behind)) (phase : UnitPhase) :
    ((before ++ { c with phase } :: behind).map (·.unit)).Nodup := by
  have hnamed := h.named
  rw [List.map_append, List.map_cons] at hnamed ⊢
  exact hnamed

/-- Any other call between its two steps is still there when one call has moved. -/
theorem Lists.emptied_middle (h : Lists t (before ++ c :: behind)) (c' : UnitCall)
    (hrun : t.runs.lookup run = some []) (hc : c.run = run → c.isBetween = false) :
    ∃ d ∈ before ++ c' :: behind, d.run = run ∧ d.isBetween = true := by
  obtain ⟨d, hd, hdrun, hbetween⟩ := h.emptied run hrun
  refine ⟨d, ?_, hdrun, hbetween⟩
  rcases List.mem_append.mp hd with hd | hd
  · exact List.mem_append_left _ hd
  · rcases List.mem_cons.mp hd with rfl | hd
    · rw [hc hdrun] at hbetween
      cases hbetween
    · exact List.mem_append_right _ (List.mem_cons_of_mem _ hd)

theorem Lists.call (h : Lists t calls) (hunit : unit ∉ calls.map (·.unit)) (context : Nat) :
    Lists t (calls ++ [⟨run, unit, context, .preparing⟩]) where
  table := h.table
  units r := by
    rw [entriesOf_middle_none rfl, List.append_nil]
    exact h.units r
  emptied r hr := by
    obtain ⟨d, hd, hfound⟩ := h.emptied r hr
    exact ⟨d, List.mem_append_left _ hd, hfound⟩
  named := by
    rw [List.map_append]
    exact List.Nodup.append h.named (List.nodup_singleton _) (List.disjoint_singleton.mpr hunit)

theorem Lists.quiet (h : Lists t (before ++ c :: behind)) {phase : UnitPhase}
    (hentry : { c with phase }.slot? = c.slot?)
    (hbetween : { c with phase }.isBetween = c.isBetween) :
    Lists t (before ++ { c with phase } :: behind) where
  table := h.table
  units run := by
    have hunits := h.units run
    rw [entriesOf_middle] at hunits ⊢
    rw [hentry]
    exact hunits
  emptied run hrun := by
    by_cases hc : c.run = run ∧ c.isBetween = true
    · exact ⟨{ c with phase }, by simp, hc.1, hbetween.trans hc.2⟩
    · exact h.emptied_middle _ hrun fun hcrun => Bool.eq_false_iff.mpr fun hb => hc ⟨hcrun, hb⟩
  named := h.named_middle phase

theorem Lists.register (h : Lists t (before ++ c :: behind)) (hc : c.phase = .preparing) :
    Lists (t.register c.run c.unit c.context)
      (before ++ { c with phase := .live t.nextMark } :: behind) where
  table := h.table.register c.run c.unit c.context
  units run := by
    have hnone : c.slot? = none := by rw [UnitCall.slot?, hc]
    have hunits := h.units run
    rw [entriesOf_middle_none hnone] at hunits
    rw [Tracking.units, Tracking.lookup_register]
    by_cases hrun : run = c.run
    · subst hrun
      have hothers : ((t.units c.run).filter (·.1 != c.unit)).Perm
          (entriesOf c.run (before ++ behind)) := by
        rw [← filter_entriesOf h.not_mem_unit]
        exact hunits.filter _
      rw [if_pos rfl, Option.getD_some]
      refine (List.perm_append_singleton _ _).trans ((hothers.cons _).trans (.symm ?_))
      exact entriesOf_middle_some (c := { c with phase := .live t.nextMark }) rfl
    · have hother : ¬ c.run = run := fun heq => hrun heq.symm
      rw [if_neg hrun, entriesOf_middle]
      dsimp only
      rw [if_neg hother, Option.toList_none, List.append_nil]
      rw [entriesOf, List.filterMap_append] at hunits
      exact hunits
  emptied run hrun := by
    rw [Tracking.lookup_register] at hrun
    split at hrun
    · simp at hrun
    · refine h.emptied_middle _ hrun fun _ => ?_
      rw [UnitCall.isBetween, hc]
  named := h.named_middle _

theorem Lists.removeUnit (h : Lists t (before ++ c :: behind)) {mark : Nat}
    {ending : Option UnitEnding} (hc : c.phase = .leaving mark ending) :
    Lists (t.removeUnit c.run c.unit) (before ++ { c with phase := .removed ending } :: behind) where
  table := h.table.removeUnit c.run c.unit
  units run := by
    have hentry : c.slot? = some (c.unit, mark) := by rw [UnitCall.slot?, hc]
    have hunits := h.units run
    rw [entriesOf_middle_none (by rfl), Tracking.units, Tracking.lookup_removeUnit]
    by_cases hrun : run = c.run
    · subst hrun
      have hothers := (hunits.trans (entriesOf_middle_some hentry)).filter (·.1 != c.unit)
      rw [List.filter_cons_of_neg (by simp), filter_entriesOf h.not_mem_unit] at hothers
      rw [if_pos rfl]
      refine .trans (.of_eq ?_) hothers
      rw [Tracking.units]
      cases t.runs.lookup c.run <;> rfl
    · have hother : ¬ c.run = run := fun heq => hrun heq.symm
      rw [if_neg hrun]
      rw [entriesOf_middle, if_neg hother, Option.toList_none, List.append_nil] at hunits
      rw [entriesOf, List.filterMap_append]
      exact hunits
  emptied run hrun := by
    by_cases hcrun : c.run = run
    · exact ⟨{ c with phase := .removed ending }, by simp, hcrun, rfl⟩
    · rw [Tracking.lookup_removeUnit, if_neg fun heq => hcrun heq.symm] at hrun
      exact h.emptied_middle _ hrun fun heq => absurd heq hcrun
  named := h.named_middle _

theorem Lists.removeRun (h : Lists t (before ++ c :: behind)) {ending : Option UnitEnding}
    (hc : c.phase = .removed ending) :
    Lists (t.removeRun c.run) (before ++ { c with phase := .closing ending } :: behind) where
  table := h.table.removeRun c.run
  units run := by
    have hnone : c.slot? = none := by rw [UnitCall.slot?, hc]
    have hunits := h.units run
    rw [entriesOf_middle_none hnone] at hunits
    rw [entriesOf_middle_none (by rfl), Tracking.units, Tracking.lookup_removeRun h.table]
    split
    · rename_i hrun
      subst hrun
      refine .trans (.of_eq ?_) hunits
      rw [Tracking.units]
      rcases t.runs.lookup c.run with _ | _ | _ <;> rfl
    · exact hunits
  emptied run hrun := by
    rw [Tracking.lookup_removeRun h.table] at hrun
    split at hrun
    · simp at hrun
    · rename_i hne
      exact h.emptied_middle _ hrun fun heq => absurd heq.symm hne
  named := h.named_middle _

/-! ### Marks of contexts and of units -/

/-- Marks stand below marks of contexts only; each listed unit has a mark of its own. -/
structure Marks (t : Tracking) (contexts : List Nat) (calls : List UnitCall) : Prop where
  forest : t.marks.IsForest
  parents : ∀ p, some p ∈ t.marks.marks.map (·.1) → p ∈ contexts
  bound : ∀ i ∈ contexts, i < t.nextMark
  below : ∀ c ∈ calls, c.context ∈ contexts
  marked : ∀ e ∈ calls.filterMap UnitCall.slot?, e.2 < t.nextMark ∧ e.2 ∉ contexts
  apart : ((calls.filterMap UnitCall.slot?).map (·.2)).Nodup

variable {contexts : List Nat}

theorem marks_nil : Marks {} [0] [] where
  forest := Cancellation.isForest_single
  parents p hp := by cases List.mem_singleton.mp hp
  bound i hi := by
    obtain rfl := List.mem_singleton.mp hi
    exact Nat.zero_lt_one
  below := List.forall_mem_nil _
  marked := List.forall_mem_nil _
  apart := List.nodup_nil

/-- Marks that are cancelled stay where they are. -/
theorem Marks.cancelAll (h : Marks t contexts calls) (is : List Nat) :
    Marks { t with marks := t.marks.cancelAll is } contexts calls := by
  have hparents := Cancellation.map_fst_cancelAll t.marks is
  have hlength : (t.marks.cancelAll is).marks.length = t.marks.marks.length := by
    simpa using congrArg List.length hparents
  refine ⟨h.forest.cancelAll is, fun p hp => h.parents p (hparents ▸ hp), fun i hi => ?_, h.below,
    fun e he => ⟨?_, (h.marked e he).2⟩, h.apart⟩
  · exact (h.bound i hi).trans_eq hlength.symm
  · exact (h.marked e he).1.trans_eq hlength.symm

/-- A new mark stands behind all others. -/
theorem length_child (c : Cancellation) (i : Nat) :
    (c.child i).1.marks.length = c.marks.length + 1 := by
  simp [Cancellation.child]

theorem Marks.parents_child (h : Marks t contexts calls) {context : Nat} (hc : context ∈ contexts)
    {p : Nat} (hp : some p ∈ (t.marks.child context).1.marks.map (·.1)) : p ∈ contexts := by
  rw [Cancellation.child, List.map_append, List.mem_append] at hp
  rcases hp with hp | hp
  · exact h.parents p hp
  · obtain rfl := Option.some.inj (List.mem_singleton.mp hp)
    exact hc

theorem Marks.nest (h : Marks t contexts calls) {context : Nat} (hc : context ∈ contexts) :
    Marks { t with marks := (t.marks.child context).1 } (contexts ++ [t.nextMark]) calls where
  forest := h.forest.child (h.bound context hc)
  parents p hp := List.mem_append_left _ (h.parents_child hc hp)
  bound i hi := by
    rw [Tracking.nextMark, length_child]
    rcases List.mem_append.mp hi with hi | hi
    · exact (h.bound i hi).trans (Nat.lt_succ_self _)
    · obtain rfl := List.mem_singleton.mp hi
      exact Nat.lt_succ_self _
  below c hc := List.mem_append_left _ (h.below c hc)
  marked e he := by
    obtain ⟨hlt, hother⟩ := h.marked e he
    rw [Tracking.nextMark, length_child, List.mem_append, not_or, List.mem_singleton]
    exact ⟨hlt.trans (Nat.lt_succ_self _), hother, Nat.ne_of_lt hlt⟩
  apart := h.apart

theorem Marks.call (h : Marks t contexts calls) {context : Nat} (hc : context ∈ contexts)
    (run unit : String) : Marks t contexts (calls ++ [⟨run, unit, context, .preparing⟩]) where
  forest := h.forest
  parents := h.parents
  bound := h.bound
  below := List.forall_mem_append.mpr ⟨h.below, List.forall_mem_singleton.mpr hc⟩
  marked e he := by
    rw [List.filterMap_append, List.filterMap_cons_none rfl, List.filterMap_nil,
      List.append_nil] at he
    exact h.marked e he
  apart := by
    rw [List.filterMap_append, List.filterMap_cons_none rfl, List.filterMap_nil, List.append_nil]
    exact h.apart

/-- A call that moves keeps its entry or loses it. -/
theorem Marks.move (h : Marks t contexts (before ++ c :: behind)) (t' : Tracking)
    (hmarks : t'.marks = t.marks) (phase : UnitPhase)
    (hentry : ∀ e ∈ { c with phase }.slot?, c.slot? = some e) :
    Marks t' contexts (before ++ { c with phase } :: behind) := by
  have hsub : ((before ++ { c with phase } :: behind).filterMap UnitCall.slot?).Sublist
      ((before ++ c :: behind).filterMap UnitCall.slot?) := by
    rw [List.filterMap_append, List.filterMap_append, List.filterMap_cons, List.filterMap_cons]
    refine (List.Sublist.refl _).append ?_
    cases hnew : { c with phase }.slot? with
    | none => cases c.slot? <;> simp
    | some e => rw [hentry e hnew]
  have hbelow := h.below
  obtain ⟨runs, marks⟩ := t
  obtain ⟨runs', marks'⟩ := t'
  obtain rfl := hmarks
  refine ⟨h.forest, h.parents, h.bound, ?_, fun e he => h.marked e (hsub.subset he),
    h.apart.sublist (hsub.map _)⟩
  simp only [List.forall_mem_append, List.forall_mem_cons] at hbelow ⊢
  exact hbelow

theorem Marks.register (h : Marks t contexts (before ++ c :: behind)) (hc : c.phase = .preparing) :
    Marks (t.register c.run c.unit c.context) contexts
      (before ++ { c with phase := .live t.nextMark } :: behind) := by
  have hnone : c.slot? = none := by rw [UnitCall.slot?, hc]
  have hcontext : c.context ∈ contexts := h.below c (by simp)
  have hbefore := h.marked
  have hapart := h.apart
  have hbelow := h.below
  rw [List.filterMap_append, List.filterMap_cons_none hnone, ← List.filterMap_append] at hbefore hapart
  have hperm : ((before ++ { c with phase := .live t.nextMark } :: behind).filterMap
      UnitCall.slot?).Perm ((c.unit, t.nextMark) :: (before ++ behind).filterMap UnitCall.slot?) := by
    have hnew : UnitCall.slot? { c with phase := .live t.nextMark } = some (c.unit, t.nextMark) :=
      rfl
    rw [List.filterMap_append, List.filterMap_cons_some hnew, List.filterMap_append]
    exact List.perm_middle
  have hlength : (t.register c.run c.unit c.context).nextMark = t.nextMark + 1 :=
    length_child t.marks c.context
  refine ⟨h.forest.child (h.bound _ hcontext), fun p hp => h.parents_child hcontext hp,
    fun i hi => ?_, ?_, fun e he => ?_, ?_⟩
  · exact ((h.bound i hi).trans (Nat.lt_succ_self _)).trans_eq hlength.symm
  · simp only [List.forall_mem_append, List.forall_mem_cons] at hbelow ⊢
    exact hbelow
  · rw [hlength]
    rcases List.mem_cons.mp (hperm.subset he) with rfl | he
    · exact ⟨Nat.lt_succ_self _, fun hmem => Nat.lt_irrefl _ (h.bound _ hmem)⟩
    · exact ⟨(hbefore e he).1.trans (Nat.lt_succ_self _), (hbefore e he).2⟩
  · refine (hperm.map _).nodup_iff.mpr (List.nodup_cons.mpr ⟨fun hmem => ?_, hapart⟩)
    obtain ⟨e, he, hmark⟩ := List.mem_map.mp hmem
    exact Nat.ne_of_lt (hbefore e he).1 hmark

/-! ### Every action -/

/-- What holds between the calls, the table and the marks. -/
structure Invariant (s : UnitCalls) : Prop where
  lists : Lists s.tracking s.calls
  marks : Marks s.tracking s.contexts s.calls

variable {s s' : UnitCalls}

theorem exists_set {place : Nat} (h : calls[place]? = some c) :
    ∃ before behind, calls = before ++ c :: behind ∧
      ∀ c', calls.set place c' = before ++ c' :: behind := by
  obtain ⟨hlt, rfl⟩ := List.getElem?_eq_some_iff.mp h
  refine ⟨calls.take place, calls.drop (place + 1), ?_, fun c' => ?_⟩
  · rw [List.getElem_cons_drop, List.take_append_drop]
  · rw [List.set_eq_take_append_cons_drop, if_pos hlt]

theorem Invariant.move {m : UnitMove} {phase : UnitPhase} {t : Tracking} (h : s.Invariant)
    (hs : s.calls = before ++ c :: behind) (hact : c.act s.tracking m = some (phase, t)) :
    Invariant { s with tracking := t, calls := before ++ { c with phase } :: behind } := by
  have hlists := hs ▸ h.lists
  have hmarks := hs ▸ h.marks
  rcases UnitCall.act_cases hact with ⟨rfl, hentry, hbetween⟩ | ⟨hc, rfl, rfl⟩ |
    ⟨mark, ending, hc, rfl, rfl⟩ | ⟨ending, hc, rfl, rfl⟩
  · exact ⟨hlists.quiet hentry hbetween, hmarks.move _ rfl phase fun e he => hentry.symm.trans he⟩
  · exact ⟨hlists.register hc, hmarks.register hc⟩
  · exact ⟨hlists.removeUnit hc, hmarks.move (s.tracking.removeUnit c.run c.unit) rfl
      (.removed ending) fun e he => by cases he⟩
  · exact ⟨hlists.removeRun hc, hmarks.move (s.tracking.removeRun c.run) rfl
      (.closing ending) fun e he => by cases he⟩

theorem Invariant.act {a : Action} (h : s.Invariant) (hact : s.act a = some s') : s'.Invariant := by
  cases a with
  | nest context =>
    obtain ⟨hc, heq⟩ := Option.ite_none_right_eq_some.mp hact
    cases heq
    exact ⟨h.lists.congr rfl, h.marks.nest hc⟩
  | cancelContext context =>
    obtain ⟨-, heq⟩ := Option.ite_none_right_eq_some.mp hact
    cases heq
    exact ⟨h.lists.congr rfl, h.marks.cancelAll [context]⟩
  | call run unit context =>
    obtain ⟨⟨hc, hunit⟩, heq⟩ := Option.ite_none_right_eq_some.mp hact
    cases heq
    exact ⟨h.lists.call hunit context, h.marks.call hc run unit⟩
  | move place m =>
    obtain ⟨c, hplace, hmove⟩ := Option.bind_eq_some_iff.mp hact
    obtain ⟨⟨phase, t⟩, hc, rfl⟩ := Option.map_eq_some_iff.mp hmove
    obtain ⟨before, behind, hs, hset⟩ := exists_set hplace
    dsimp only
    rw [hset]
    exact h.move hs hc
  | cancelRun run =>
    cases hact
    exact ⟨h.lists.congr rfl, h.marks.cancelAll _⟩

theorem invariant_after {actions : List Action} (h : after actions = some s) : s.Invariant := by
  have hrun : ∀ s₀ : UnitCalls, s₀.Invariant → actions.foldlM UnitCalls.act s₀ = some s →
      s.Invariant := by
    clear h
    induction actions with
    | nil =>
      intro s₀ h₀ h
      cases h
      exact h₀
    | cons a actions ih =>
      intro s₀ h₀ h
      rw [List.foldlM_cons] at h
      obtain ⟨s₁, ha, hrest⟩ := Option.bind_eq_some_iff.mp h
      exact ih s₁ (h₀.act ha) hrest
  exact hrun {} ⟨lists_nil, marks_nil⟩ h

end UnitCalls

end Flowline
