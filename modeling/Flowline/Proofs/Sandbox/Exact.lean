import Flowline.Proofs.Sandbox.Calls
import Mathlib.Algebra.BigOperators.Group.List.Basic
import Mathlib.Algebra.GroupWithZero.Nat

/-!
# What the list of live units says at every moment

The counts that are read off the list, what stopping a run reaches, and that nothing is left of a call
that has ended. A call that nothing interrupts gives what running the unit gives.
-/
namespace Flowline

theorem Tracking.IsTable.lookup_of_mem {t : Tracking} (h : t.IsTable) {run : String}
    {us : List (String × Nat)} (hmem : (run, us) ∈ t.runs) : t.runs.lookup run = some us := by
  obtain ⟨before, behind, hruns⟩ := List.append_of_mem hmem
  rw [IsTable, hruns, List.map_append, List.map_cons, List.nodup_middle] at h
  have hother : before.lookup run = none := List.lookup_eq_none_iff.mpr fun e he =>
    bne_iff_ne.mpr fun heq => (List.nodup_cons.mp h).1 <|
      List.mem_append_left _ (List.mem_map.mpr ⟨e, he, heq.symm⟩)
  rw [hruns, List.lookup_append, hother, List.lookup_cons_self, Option.none_or]

theorem UnitCall.quiet_of_hasEnded {c : UnitCall} (h : c.hasEnded = true) :
    c.slot? = none ∧ c.isBetween = false := by
  obtain ⟨run, unit, context, phase⟩ := c
  cases phase with
  | ended outcome => exact ⟨rfl, rfl⟩
  | _ => cases h

namespace UnitCalls

variable {t : Tracking} {calls : List UnitCall} {c : UnitCall} {s : UnitCalls}

/-! ### Counting -/

theorem mem_runs_of_entry (h : Lists t calls) (hc : c ∈ calls) {e : String × Nat}
    (he : c.slot? = some e) : c.run ∈ t.runs.map (·.1) := by
  by_contra hnew
  have hnone : t.runs.lookup c.run = none := List.lookup_eq_none_iff.mpr fun entry hentry =>
    bne_iff_ne.mpr fun heq => hnew (List.mem_map.mpr ⟨entry, hentry, heq.symm⟩)
  have hmem := (h.units c.run).mem_iff.mpr (mem_entriesOf.mpr ⟨c, hc, rfl, he⟩)
  rw [Tracking.units, hnone] at hmem
  cases hmem

/-- Each entry is counted under one run. -/
theorem sum_entriesOf {keys : List String} (hkeys : keys.Nodup)
    (h : ∀ c ∈ calls, ∀ e, c.slot? = some e → c.run ∈ keys) :
    (keys.map fun run => (entriesOf run calls).length).sum
      = (calls.filterMap UnitCall.slot?).length := by
  induction calls with
  | nil => simp [entriesOf]
  | cons c calls ih =>
    obtain ⟨hc, hrest⟩ := List.forall_mem_cons.mp h
    have hone : ∀ run, (entriesOf run (c :: calls)).length =
        (if c.run = run then c.slot? else none).toList.length + (entriesOf run calls).length := by
      intro run
      rw [← List.length_append, ← List.nil_append (c :: calls), entriesOf_middle]
      rfl
    rw [funext hone, List.sum_map_add, ih hrest]
    cases he : c.slot? with
    | none => simp [he]
    | some e =>
      have hcount : ∀ runs : List String,
          (runs.map fun run => (if c.run = run then some e else none).toList.length).sum
            = runs.count c.run := by
        intro runs
        induction runs with
        | nil => rfl
        | cons run runs ih =>
          rw [List.map_cons, List.sum_cons, ih, List.count_cons, Nat.add_comm]
          by_cases hrun : c.run = run
          · simp [hrun]
          · simp [hrun, Ne.symm hrun]
      rw [hcount, List.count_eq_one_of_mem hkeys (hc e he), List.filterMap_cons_some he,
        List.length_cons, Nat.add_comm]

theorem total_eq (h : Lists t calls) :
    t.total = (calls.filterMap UnitCall.slot?).length := by
  rw [← sum_entriesOf h.table fun c hc e he => mem_runs_of_entry h hc he, Tracking.total,
    List.length_flatMap, List.map_map]
  refine congrArg List.sum (List.map_congr_left fun (run, us) hmem => ?_)
  rw [Function.comp_apply, ← (h.units run).length_eq, Tracking.units, h.table.lookup_of_mem hmem,
    Option.getD_some]

theorem runs_eq_nil (h : Lists t calls) (hended : ∀ c ∈ calls, c.hasEnded = true) :
    t.runs = [] := by
  have hquiet : ∀ c ∈ calls, c.slot? = none ∧ c.isBetween = false := fun c hc =>
    UnitCall.quiet_of_hasEnded (hended c hc)
  refine List.eq_nil_iff_forall_not_mem.mpr fun (run, us) hmem => ?_
  have hlookup := h.table.lookup_of_mem hmem
  have hunits := h.units run
  have hnone : entriesOf run calls = [] := List.eq_nil_iff_forall_not_mem.mpr fun e he => by
    obtain ⟨c, hc, -, hentry⟩ := mem_entriesOf.mp he
    rw [(hquiet c hc).1] at hentry
    cases hentry
  rw [Tracking.units, hlookup, hnone, Option.getD_some, List.perm_nil] at hunits
  obtain ⟨c, hc, -, hbetween⟩ := h.emptied run (hunits ▸ hlookup)
  rw [(hquiet c hc).2] at hbetween
  cases hbetween

/-! ### Stopping a run -/

theorem exists_call_of_mem_units (h : Lists t calls) {run : String} {e : String × Nat}
    (he : e ∈ t.units run) : ∃ c ∈ calls, c.run = run ∧ c.slot? = some e :=
  mem_entriesOf.mp ((h.units run).mem_iff.mp he)

theorem isCancelled_cancelRun (h : s.Invariant) (run : String) (i : Nat) :
    (s.tracking.cancelRun run).1.marks.isCancelled i =
      (s.tracking.marks.isCancelled i || decide (i ∈ (s.tracking.units run).map (·.2))) := by
  refine h.marks.forest.isCancelled_cancelAll (fun mark hmark => ?_) i
  obtain ⟨e, he, rfl⟩ := List.mem_map.mp hmark
  obtain ⟨c, hc, -, hentry⟩ := exists_call_of_mem_units h.lists he
  obtain ⟨hlt, hcontext⟩ := h.marks.marked e (List.mem_filterMap.mpr ⟨c, hc, hentry⟩)
  exact ⟨fun hparent => hcontext (h.marks.parents _ hparent), hlt⟩

/-- The marks of listed units differ, so a unit is told to stop with its own run only. -/
theorem mem_marks_iff (h : s.Invariant) (hc : c ∈ s.calls) {mark : Nat}
    (hentry : c.slot? = some (c.unit, mark)) (run : String) :
    mark ∈ (s.tracking.units run).map (·.2) ↔ c.run = run := by
  constructor
  · intro hmem
    obtain ⟨e, he, hmark⟩ := List.mem_map.mp hmem
    obtain ⟨d, hd, rfl, hdentry⟩ := exists_call_of_mem_units h.lists he
    have heq : e = (c.unit, mark) := List.inj_on_of_nodup_map h.marks.apart
      (List.mem_filterMap.mpr ⟨d, hd, hdentry⟩) (List.mem_filterMap.mpr ⟨c, hc, hentry⟩) hmark
    have hunit : d.unit = c.unit := by rw [← UnitCall.slot?_fst hdentry, heq]
    rw [List.inj_on_of_nodup_map h.lists.named hd hc hunit]
  · rintro rfl
    exact List.mem_map.mpr
      ⟨_, (h.lists.units c.run).mem_iff.mpr (mem_entriesOf.mpr ⟨c, hc, rfl, hentry⟩), rfl⟩

/-! ### Every moment -/

/-- What the list of live units says, and what stopping a run reaches. -/
structure Exact (s : UnitCalls) : Prop where
  /-- Each run is listed once, with the units that its calls have registered and not taken off. -/
  table : s.tracking.IsTable
  listed : ∀ run, (s.tracking.units run).Perm (entriesOf run s.calls)
  /-- A run without units is listed only while a call is about to take its own off. -/
  emptied : ∀ run, s.tracking.runs.lookup run = some [] →
    ∃ c ∈ s.calls, c.run = run ∧ c.isBetween = true
  /-- Stopping a run cancels the marks of the units listed under it and no others, and counts them. -/
  stopped : ∀ run i, (s.tracking.cancelRun run).1.marks.isCancelled i =
    (s.tracking.marks.isCancelled i || decide (i ∈ (s.tracking.units run).map (·.2)))
  counted : ∀ run, (s.tracking.cancelRun run).2 = (entriesOf run s.calls).length
  /-- These marks are those of the calls of the run. -/
  apart : ∀ c ∈ s.calls, ∀ mark, c.slot? = some (c.unit, mark) →
    ∀ run, mark ∈ (s.tracking.units run).map (·.2) ↔ c.run = run
  ended : ∀ c ∈ s.calls, c.hasEnded = true → ∀ run mark, (c.unit, mark) ∉ s.tracking.units run
  total : s.tracking.total = (s.calls.filterMap UnitCall.slot?).length
  idle : (∀ c ∈ s.calls, c.hasEnded = true) → s.tracking.runs = [] ∧ s.tracking.total = 0

theorem Invariant.exact (h : s.Invariant) : s.Exact where
  table := h.lists.table
  listed := h.lists.units
  emptied := h.lists.emptied
  stopped := isCancelled_cancelRun h
  counted run := (h.lists.units run).length_eq
  apart c hc mark hentry run := mem_marks_iff h hc hentry run
  ended c hc hended run mark hmem := by
    obtain ⟨d, hd, -, hentry⟩ := exists_call_of_mem_units h.lists hmem
    have hsame : d = c :=
      List.inj_on_of_nodup_map h.lists.named hd hc (UnitCall.slot?_fst hentry).symm
    rw [hsame, (UnitCall.quiet_of_hasEnded hended).1] at hentry
    cases hentry
  total := total_eq h.lists
  idle hended := by
    have hruns := runs_eq_nil h.lists hended
    exact ⟨hruns, by rw [Tracking.total, hruns]; rfl⟩

/-- However calls that run units and calls that stop runs interleave, tracking is exact. -/
theorem tracking_exact {actions : List Action} (h : after actions = some s) : s.Exact :=
  (invariant_after h).exact

/-- A call of a run takes its unit off, another one of the same run registers between the two steps of
this, and the run is stopped. -/
def overlapping : List Action :=
  [.call "r" "a" 0, .call "r" "b" 0, .move 0 .register, .move 0 (.leave (.timedOut 1 1200)),
    .move 0 .removeUnit, .move 1 .register, .move 0 .removeRun, .cancelRun "r", .move 0 .close]

theorem tracking_exact_overlapping : ∃ s, after overlapping = some s ∧ s.Exact ∧
    s.tracking.units "r" = [("b", 2)] ∧ s.tracking.marks.isCancelled 2 = true := by
  have hafter : after overlapping = some _ := rfl
  exact ⟨_, hafter, tracking_exact hafter, rfl, rfl⟩

/-! ### A call that nothing interrupts -/

/-- The actions of one call, from its first to its last. -/
def alone (place : Nat) (run unit : String) (context : Nat) (ending : UnitEnding) : List Action :=
  [.call run unit context, .move place .register, .move place (.leave ending),
    .move place .removeUnit, .move place .removeRun, .move place .close]

theorem act_last {m : UnitMove} {phase : UnitPhase} {t' : Tracking} (contexts : List Nat)
    (h : c.act t m = some (phase, t')) :
    act ⟨t, contexts, calls ++ [c]⟩ (.move calls.length m) =
      some ⟨t', contexts, calls ++ [{ c with phase }]⟩ := by
  have hset : (calls ++ [c]).set calls.length { c with phase } = calls ++ [{ c with phase }] := by
    rw [List.set_append_right _ _ le_rfl, Nat.sub_self, List.set_cons_zero]
  simp only [act, List.getElem?_concat_length, Option.bind_some, h, Option.map_some, hset]

/-- A new mark is cancelled just when the one above it is. -/
theorem isCancelled_child (marks : Cancellation) (i : Nat) :
    (marks.child i).1.isCancelled marks.marks.length = marks.isCancelled i := by
  simp [Cancellation.child, Cancellation.isCancelled]

theorem stopped_of_ending {h : UnitHost} {stopped : Bool} {ctx : Context} {r : UnitRequest}
    (hending : (h.ending stopped ctx r).1 = .cancelled) : stopped = true := by
  unfold UnitHost.ending at hending
  split at hending
  · cases hending
  · split at hending
    · cases hending
    · cases stopped with
      | true => rfl
      | false =>
        simp only [Bool.false_eq_true, if_false] at hending
        split at hending <;> cases hending

theorem mayLeave_ending (h : UnitHost) (ctx : Context) (r : UnitRequest) (run unit : String)
    (context : Nat) :
    UnitCall.mayLeave (t.register run unit context) t.nextMark
      (h.ending (t.marks.isCancelled context) ctx r).1 = true := by
  cases hending : (h.ending (t.marks.isCancelled context) ctx r).1 with
  | cancelled => exact (isCancelled_child t.marks context).trans (stopped_of_ending hending)
  | _ => rfl

/-- Such a call ends with what running its unit gives. -/
theorem foldlM_alone (h : UnitHost) (ctx : Context) (r : UnitRequest) {run unit : String}
    {context : Nat} (hcontext : context ∈ s.contexts) (hunit : unit ∉ s.calls.map (·.unit)) :
    let stopped := s.tracking.marks.isCancelled context
    ∃ s', (alone s.calls.length run unit context (h.ending stopped ctx r).1).foldlM act s = some s' ∧
      s'.calls = s.calls ++ [⟨run, unit, context, .ended (some (h.run stopped ctx r).1)⟩] := by
  obtain ⟨t, contexts, calls⟩ := s
  intro stopped
  have hcall : act ⟨t, contexts, calls⟩ (.call run unit context) =
      some ⟨t, contexts, calls ++ [⟨run, unit, context, .preparing⟩]⟩ := if_pos ⟨hcontext, hunit⟩
  have hleave : UnitCall.act ⟨run, unit, context, .live t.nextMark⟩ (t.register run unit context)
      (.leave (h.ending stopped ctx r).1) = some (.leaving t.nextMark (h.ending stopped ctx r).1,
        t.register run unit context) := if_pos (mayLeave_ending h ctx r run unit context)
  refine ⟨⟨((t.register run unit context).removeUnit run unit).removeRun run, contexts, _⟩, ?_, rfl⟩
  simp only [alone, List.foldlM_cons, List.foldlM_nil]
  rw [hcall]
  simp only [Option.bind_eq_bind, Option.bind_some]
  rw [act_last _ (by rfl : UnitCall.act ⟨run, unit, context, .preparing⟩ t .register = some _)]
  rw [Option.bind_some, act_last _ hleave, Option.bind_some, act_last _ (by rfl), Option.bind_some,
    act_last _ (by rfl), Option.bind_some, act_last _ (by rfl)]
  rfl

end UnitCalls
end Flowline
