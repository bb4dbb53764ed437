import Flowline.Node.Crossover
import Flowline.Proofs.Frame.Columns
import Flowline.Proofs.Frame.Join
import Flowline.Proofs.Series.Crossover
import Flowline.Proofs.Validation.Parameters

/-!
# The columns of crossover signals

Three columns are written into the joined frame: the signals under the name that the parameters
give, then the position, then the distance of the averages. The later two have names of their own,
and a signal column of one of these names is written over.
-/
namespace Flowline.Node

variable {i : Invocation} {signals : List Float} {merged out : Frame} {w : Value}

/-! ### Signals in a frame -/

def signalColumn (i : Invocation) : String :=
  (i.text? "signal_column").getD Builtin.defaultSignalColumn

def confirmationPeriods (i : Invocation) : Nat :=
  ((i.nat? "confirmation_periods").map (max 1)).getD 1

/-- The signals of two columns of averages. -/
def signalsOf (i : Invocation) (merged : Frame) (fast slow : String) : List Float :=
  Series.confirmed (confirmationPeriods i)
    (Series.crossings ((i.float? "buy_threshold").getD 0.0) ((i.float? "sell_threshold").getD 0.0)
      (merged.numbers fast) (merged.numbers slow))
    ((merged.numbers fast).zip (merged.numbers slow))

/-- The distances of two columns of averages. -/
def distancesOf (merged : Frame) (fast slow : String) : Series :=
  (merged.numbers fast).zipWith Series.distance? (merged.numbers slow)

/-- The metadata count the signals to buy and those to sell. -/
structure Counts (signals : List Float) (out : Frame) : Prop where
  values : ∀ s ∈ signals, Series.IsSignal s
  buys : out.metadata.get? "buy_signals" = some (.ofNat (signals.countP fun s => s > 0.0))
  sells : out.metadata.get? "sell_signals" = some (.ofNat (signals.countP fun s => s < 0.0))

/-- The column has the signals, row by row. -/
def Carries (column : String) (signals : List Float) (out : Frame) : Prop :=
  out.cells column = signals.map fun s => some (.float s)

/-- Another column of this name is written after the signals. -/
def Overwritten (column : String) : Prop := column = "position" ∨ column = "ma_diff_pct"

/-- A frame with the signals of two of its columns. -/
structure Signalled (i : Invocation) (merged : Frame) (fast slow : String) (out : Frame) :
    Prop where
  shape : out.shape = .signals
  named : out.metadata.get? "signal_column" = some (.str (signalColumn i))
  counted : Counts (signalsOf i merged fast slow) out
  carried : ¬ Overwritten (signalColumn i) →
    Carries (signalColumn i) (signalsOf i merged fast slow) out
  /-- The position has the sign of the latest signal. -/
  positions : out.cells "position" = (List.range merged.rows.length).map fun k =>
    some (.float (Series.lastSign ((signalsOf i merged fast slow).take (k + 1))))
  distances : out.cells "ma_diff_pct" =
    (distancesOf merged fast slow).map fun x => some (Value.ofFloat? x)
  kept : ∀ c, c ≠ signalColumn i → ¬ Overwritten c → out.cells c = merged.cells c

theorem length_signalsOf (i : Invocation) (merged : Frame) (fast slow : String) :
    (signalsOf i merged fast slow).length = merged.rows.length := by
  rw [signalsOf, Series.length_confirmed, Series.length_crossings] <;> simp [Frame.length_numbers]

theorem length_distancesOf (merged : Frame) (fast slow : String) :
    (distancesOf merged fast slow).length = merged.rows.length := by
  simp [distancesOf, Frame.length_numbers]

theorem isSignal_signalsOf (i : Invocation) (merged : Frame) (fast slow : String) :
    ∀ s ∈ signalsOf i merged fast slow, Series.IsSignal s :=
  Series.isSignal_confirmed (Series.isSignal_crossings (by simp [Frame.length_numbers]))

/-- Signals are finite, so they are written as they are. -/
theorem map_ofFloat?_signals (h : ∀ s ∈ signals, Series.IsSignal s) :
    (signals.map some).map (fun x => some (Value.ofFloat? x)) =
      signals.map fun s => some (Value.float s) := by
  rw [List.map_map]
  refine List.map_congr_left fun s hs => ?_
  obtain rfl | rfl | rfl := h s hs <;> rfl

/-! ### The frame that is written -/

/-- The frame with the three columns and what is noted of them. -/
def signalFrame (i : Invocation) (merged : Frame) (fast slow : String) : Frame :=
  let signals := signalsOf i merged fast slow
  let buys := signals.countP fun s => s > 0.0
  let sells := signals.countP fun s => s < 0.0
  let frame := merged.setColumn (signalColumn i) (signals.map some)
  let frame := frame.setColumn "position" ((Series.positions 0.0 signals).map some)
  let frame := frame.setColumn "ma_diff_pct" (distancesOf merged fast slow)
  let notes : Fields := [("signal_column", .str (signalColumn i)), ("fast_ma_column", .str fast),
    ("slow_ma_column", .str slow), ("buy_signals", .ofNat buys),
    ("sell_signals", .ofNat sells), ("total_signals", .ofNat (buys + sells)),
    ("confirmation_periods", .ofNat (confirmationPeriods i))]
  { notes.foldl (fun f (k, v) => f.note k v) frame with shape := .signals }

/-- The steps from the inputs to the frame that is written. -/
theorem crossover_eq {first : Frame} {rest : List Frame}
    (h : i.inputs.mapM (fun (_, v) => Frame.ofValue v) = .ok (first :: rest)) :
    crossover i = (Frame.join "timestamp" (first :: rest) >>= fun merged =>
      averageColumns i merged >>= fun columns =>
        .ok (signalFrame i merged columns.1 columns.2).toValue) := by
  unfold crossover
  rw [h]
  rfl

theorem crossover_steps (h : crossover i = .ok w) : ∃ first rest merged fast slow,
    i.inputs.mapM (fun (_, v) => Frame.ofValue v) = .ok (first :: rest) ∧
      Frame.join "timestamp" (first :: rest) = .ok merged ∧
      averageColumns i merged = .ok (fast, slow) ∧
      w = (signalFrame i merged fast slow).toValue := by
  obtain ⟨frames, hframes, -⟩ := exists_of_bind_eq_ok h
  cases frames with
  | nil =>
    unfold crossover at h
    rw [hframes] at h
    cases h
  | cons first rest =>
    rw [crossover_eq hframes] at h
    obtain ⟨merged, hmerged, h⟩ := exists_of_bind_eq_ok h
    obtain ⟨⟨fast, slow⟩, hcolumns, h⟩ := exists_of_bind_eq_ok h
    exact ⟨first, rest, merged, fast, slow, hframes, hmerged, hcolumns, (Except.ok.inj h).symm⟩

/-- Of columns of one name the one that is written last is left. -/
theorem cells_signalFrame (i : Invocation) (merged : Frame) (fast slow c : String) :
    (signalFrame i merged fast slow).cells c =
      if c = "ma_diff_pct" then
        (distancesOf merged fast slow).map fun x => some (Value.ofFloat? x)
      else if c = "position" then (List.range merged.rows.length).map fun k =>
        some (.float (Series.lastSign ((signalsOf i merged fast slow).take (k + 1))))
      else if c = signalColumn i then
        (signalsOf i merged fast slow).map fun s => some (.float s)
      else merged.cells c := by
  have hsignals := isSignal_signalsOf i merged fast slow
  have hlength := length_signalsOf i merged fast slow
  have hpositions := Series.positions_signals hsignals
  rw [hlength] at hpositions
  change (((merged.setColumn (signalColumn i) _).setColumn "position"
    ((Series.positions 0.0 _).map some)).setColumn "ma_diff_pct" _).cells c = _
  rw [Frame.cells_setColumn, Frame.cells_setColumn, Frame.cells_setColumn,
    map_ofFloat?_signals hsignals, map_ofFloat?_signals (Series.isSignal_positions hsignals),
    hpositions, List.map_map]
  · rfl
  · simp [hlength]
  · simp [Frame.setColumn, Frame.length_writeColumn, hpositions]
  · simp [Frame.setColumn, Frame.length_writeColumn, length_distancesOf]

theorem signalled_signalFrame (i : Invocation) (merged : Frame) (fast slow : String)
    (h : Frame.ofValue (signalFrame i merged fast slow).toValue = .ok out) :
    Signalled i merged fast slow out := by
  rw [Frame.ofValue_toValue] at h
  obtain rfl := Except.ok.inj h
  have hcells := cells_signalFrame i merged fast slow
  constructor
  case shape => rfl
  case named => simp [signalFrame, Frame.note, Fields.get?_insert]
  case counted =>
    constructor
    case values => exact isSignal_signalsOf i merged fast slow
    case buys => simp [signalFrame, Frame.note, Fields.get?_insert]
    case sells => simp [signalFrame, Frame.note, Fields.get?_insert]
  case carried =>
    intro hcolumn
    rw [Overwritten, not_or] at hcolumn
    exact (hcells _).trans (by simp [hcolumn])
  case positions => exact hcells "position"
  case distances => exact hcells "ma_diff_pct"
  case kept =>
    intro c hc hcolumn
    rw [Overwritten, not_or] at hcolumn
    exact (hcells c).trans (by simp [hc, hcolumn])

/-- Whatever the crossover node returns has the signals of two columns of the joined inputs. -/
theorem crossover_signalled (h : crossover i = .ok w) : ∃ first rest merged fast slow out,
    i.inputs.mapM (fun (_, v) => Frame.ofValue v) = .ok (first :: rest) ∧
      Frame.join "timestamp" (first :: rest) = .ok merged ∧
      Frame.Joined "timestamp" first rest merged ∧
      averageColumns i merged = .ok (fast, slow) ∧
      Frame.ofValue w = .ok out ∧ Signalled i merged fast slow out := by
  obtain ⟨first, rest, merged, fast, slow, hframes, hmerged, hcolumns, rfl⟩ := crossover_steps h
  have hout := Frame.ofValue_toValue (signalFrame i merged fast slow)
  exact ⟨first, rest, merged, fast, slow, _, hframes, hmerged, Frame.joined_of_ok hmerged,
    hcolumns, hout, signalled_signalFrame i merged fast slow hout⟩

/-- A node whose signals go into this column. -/
def averagesNode (column : String) : Declaration :=
  { id := "cross", type := "CrossoverSignalNode", dependsOn := ["prices", "averages"]
    params := [("signal_column", .str column), ("fast_ma_column", .str "fast"),
      ("slow_ma_column", .str "slow")] }

def quotedFrame : Frame :=
  { rows := [[("timestamp", .int 1), ("close", .float 9.5)], [("timestamp", .int 2)],
      [("timestamp", .int 3)], [("timestamp", .int 4)]] }

/-- Averages that rise above another one and fall back. -/
def averagesFrame : Frame :=
  { rows := [[("timestamp", .int 1), ("fast", .float 1.0), ("slow", .float 2.0)],
      [("timestamp", .int 2), ("fast", .float 3.0), ("slow", .float 2.0)],
      [("timestamp", .int 3), ("fast", .float 4.0), ("slow", .float 2.0)],
      [("timestamp", .int 4), ("fast", .float 1.0), ("slow", .float 2.0)]] }

def averagesInvocation (column : String) : Invocation :=
  { (default : Invocation) with
    params := (averagesNode column).params
    inputs := [("prices", .list (quotedFrame.rows.map .map)),
      ("averages", .list (averagesFrame.rows.map .map))] }

def quotedAverages : Frame :=
  { rows := [[("timestamp", .int 1), ("close", .float 9.5), ("fast", .float 1.0),
        ("slow", .float 2.0)],
      [("timestamp", .int 2), ("fast", .float 3.0), ("slow", .float 2.0)],
      [("timestamp", .int 3), ("fast", .float 4.0), ("slow", .float 2.0)],
      [("timestamp", .int 4), ("fast", .float 1.0), ("slow", .float 2.0)]] }

theorem crossover_averages (column : String) : crossover (averagesInvocation column) =
    .ok (signalFrame (averagesInvocation column) quotedAverages "fast" "slow").toValue := by
  have hframes : (averagesInvocation column).inputs.mapM (fun (_, v) => Frame.ofValue v) =
      .ok [quotedFrame, averagesFrame] := rfl
  rw [crossover_eq hframes]
  rfl

theorem signalsOf_averages (column : String) :
    signalsOf (averagesInvocation column) quotedAverages "fast" "slow" =
      [0.0, 1.0, 0.0, -1.0] := by
  have hfast : quotedAverages.numbers "fast" = Series.risingSeries := rfl
  have hslow : quotedAverages.numbers "slow" = Series.levelSeries 4 2.0 := rfl
  rw [signalsOf, hfast, hslow]
  change Series.confirmed 1 (Series.crossings 0.0 0.0 _ _) _ = _
  decide +kernel

theorem averages_signalled :
    NoErrors (Validation.parameterFaults Builtin.crossoverSignal (averagesNode "cross")) ∧
      ∃ w out, crossover (averagesInvocation "cross") = .ok w ∧ Frame.ofValue w = .ok out ∧
        Signalled (averagesInvocation "cross") quotedAverages "fast" "slow" out ∧
        Carries "cross" [0.0, 1.0, 0.0, -1.0] out := by
  have hok := crossover_averages "cross"
  obtain ⟨first, rest, merged, fast, slow, out, hframes, hmerged, -, hcolumns, hout, hsignalled⟩ :=
    crossover_signalled hok
  obtain ⟨rfl, rfl⟩ := List.cons.inj (Except.ok.inj (hframes.symm.trans rfl))
  obtain rfl : merged = quotedAverages := Except.ok.inj (hmerged.symm.trans rfl)
  obtain ⟨rfl, rfl⟩ := Prod.mk.inj (Except.ok.inj (hcolumns.symm.trans rfl))
  have hcolumn : ¬ Overwritten (signalColumn (averagesInvocation "cross")) := by
    simp [Overwritten, signalColumn, averagesInvocation, averagesNode, Invocation.text?,
      Fields.get?, Value.asStr?]
  refine ⟨noErrors_of_eq_nil rfl, _, out, hok, hout, hsignalled, ?_⟩
  rw [← signalsOf_averages "cross"]
  exact hsignalled.carried hcolumn

theorem overwritten_signals_lost :
    (NoErrors (Validation.parameterFaults Builtin.crossoverSignal (averagesNode "position")) ∧
      ∃ w out, crossover (averagesInvocation "position") = .ok w ∧ Frame.ofValue w = .ok out ∧
        ¬ ∃ signals, Counts signals out ∧ Carries "position" signals out) ∧
    NoErrors (Validation.parameterFaults Builtin.crossoverSignal (averagesNode "ma_diff_pct")) ∧
      ∃ w out, crossover (averagesInvocation "ma_diff_pct") = .ok w ∧ Frame.ofValue w = .ok out ∧
        ¬ ∃ signals, Counts signals out ∧ Carries "ma_diff_pct" signals out := by
  have hread := fun column => Frame.ofValue_toValue
    (signalFrame (averagesInvocation column) quotedAverages "fast" "slow")
  have hsignalled := fun column =>
    signalled_signalFrame (averagesInvocation column) quotedAverages "fast" "slow" (hread column)
  have hinjective : Function.Injective fun s => some (Value.float s) := fun s t h =>
    Value.float.inj (Option.some.inj h)
  refine ⟨⟨noErrors_of_eq_nil rfl, _, _, crossover_averages _, hread _, ?_⟩,
    noErrors_of_eq_nil rfl, _, _, crossover_averages _, hread _, ?_⟩
  · rintro ⟨signals, hcounts, hcarries⟩
    have hposition := hcarries.symm.trans (hsignalled "position").positions
    have hbuys := hcounts.buys.symm.trans (hsignalled "position").counted.buys
    rw [signalsOf_averages] at hposition hbuys
    obtain rfl : signals = [0.0, 1.0, 1.0, -1.0] :=
      (List.map_injective_iff.mpr hinjective) hposition
    cases hbuys
  · rintro ⟨signals, hcounts, hcarries⟩
    have hdistance := hcarries.symm.trans (hsignalled "ma_diff_pct").distances
    cases signals with
    | nil => cases hdistance
    | cons s signals =>
      have hs : Value.float s = .float (-50.0) := Option.some.inj (List.cons.inj hdistance).1
      obtain rfl := Value.float.inj hs
      have hnot : ¬ Series.IsSignal (-50.0) := by
        simp only [Series.IsSignal]
        decide +kernel
      exact hnot (hcounts.values _ List.mem_cons_self)

end Flowline.Node
