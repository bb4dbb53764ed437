import Flowline.Node.Indicator
import Flowline.Proofs.Frame.Columns
import Flowline.Proofs.Series.Causal
import Flowline.Proofs.Validation.Parameters

/-!
# What indicators add to a frame

An indicator that validation lets pass works on every frame that has its column. To each row it adds
the columns that its type promises, and it leaves everything else as it was.
-/
namespace Flowline.Node

variable {n : Declaration} {i : Invocation}

/-! ### Computed columns -/

theorem upper_indicator {name : String} (h : name ∈ Builtin.indicators) :
    String.ofList (name.toList.map Char.toUpper) = name := by
  revert name
  decide

/-- The columns that are computed are those that are promised, one entry for each price. -/
theorem indicatorColumns_spec {name : String} (hname : name ∈ Builtin.indicators)
    (htext : Builtin.text? i.params "indicator" = some name) {period : Nat}
    (hperiod : Builtin.int i.params "period" 14 = period) (values : Series) :
    ∃ added, indicatorColumns i name period values = some added ∧
      added.map (·.1) = Builtin.indicatorOutputColumns i.params ∧
      ∀ p ∈ added, p.2.length = values.length := by
  have hmacd := Series.length_macd ((i.nat? "fast_period").getD 12) ((i.nat? "slow_period").getD 26)
    ((i.nat? "signal_period").getD 9) values
  have hbands := Series.length_bollinger period ((i.float? "std_dev").getD 2.0) values
  simp only [Builtin.indicatorOutputColumns, htext, hperiod, Option.getD_some]
  simp only [Builtin.indicators, List.mem_cons, List.not_mem_nil, or_false] at hname
  rcases hname with rfl | rfl | rfl | rfl | rfl
  · exact ⟨_, rfl, rfl, by simp⟩
  · exact ⟨_, rfl, rfl, by simp⟩
  · exact ⟨_, rfl, rfl, by simp⟩
  · exact ⟨_, rfl, rfl, by simp [hmacd]⟩
  · exact ⟨_, rfl, rfl, by simp [hbands]⟩

theorem int_period {params : Fields} {period : Nat}
    (hperiod : params.get? "period" = some (.int period)) (hfits : (period : Int) ≤ Value.maxSigned) :
    Builtin.int params "period" 14 = period := by
  simp [Builtin.int, hperiod, Value.asInt?, hfits]

/-- An indicator over a column that is there. -/
theorem indicator_eq {producer : String} {v : Value} (hin : i.inputs = [(producer, v)]) {f : Frame}
    (hread : Frame.ofValue v = .ok f) {name : String} (hname : name ∈ Builtin.indicators)
    (htext : Builtin.text? i.params "indicator" = some name) {period : Nat}
    (hperiod : i.params.get? "period" = some (.int period)) (hpos : 0 < period)
    (hcolumn : f.hasColumn ((Builtin.text? i.params "column").getD "close") = true)
    {added : List (String × Series)} (hadded : indicatorColumns i name period
      (f.numbers ((Builtin.text? i.params "column").getD "close")) = some added) :
    indicator i = .ok (((added.foldl (fun f (c, values) => f.setColumn c values) f).note
      "indicator" (.str name)).note "period" (.ofNat period)).toValue := by
  have hnat : i.nat? "period" = some period := by
    simp [Invocation.nat?, hperiod, Value.asNat?]
  have htext' : (i.text? "indicator").getD "SMA" = name := congrArg (Option.getD · "SMA") htext
  have hrequired : f.requireColumn i.node ((i.text? "column").getD "close") = .ok () :=
    Frame.requireColumn_eq_ok hcolumn
  have hadded' : indicatorColumns i name period
      (f.numbers ((i.text? "column").getD "close")) = some added := hadded
  unfold indicator
  rw [Invocation.singleFrame_eq hin, hread, htext', upper_indicator hname, hnat]
  simp only [ok_bind, Option.getD_some, Nat.ne_of_gt hpos, if_false, hrequired, hadded']
  rfl

/-! ### Frames with the columns -/

/-- What an indicator notes of the frame, with what every frame notes of itself. -/
def indicatorNotes : List String := ["indicator", "period", "rows", "columns"]

/-- The frame with columns added, row by row, and with the notes of an indicator. -/
structure Indicated (columns : List String) (f out : Frame) : Prop where
  shape : out.shape = f.shape
  rows : List.Forall₂ (Frame.RowExtends columns) f.rows out.rows
  metadata : ∀ key, key ∉ indicatorNotes → out.metadata.get? key = f.metadata.get? key

/-- Columns are set in the rows only. -/
theorem setColumns_eq (added : List (String × Series)) (f : Frame) :
    ∃ rows, added.foldl (fun f (c, values) => f.setColumn c values) f = { f with rows } := by
  induction added generalizing f with
  | nil => exact ⟨f.rows, rfl⟩
  | cons p added ih => exact ih (f.setColumn p.1 p.2)

/-- An indicator over a frame that has its column somewhere. -/
theorem indicator_frame (h : Parametrized Builtin.indicator n) (hfit : Builtin.IntegersFit n)
    (hparams : i.params = n.params) {producer : String} {v : Value}
    (hin : i.inputs = [(producer, v)]) {f : Frame} (hread : Frame.ofValue v = .ok f)
    (hcolumns : ∀ c ∈ Builtin.indicatorColumns n.params, f.hasColumn c = true) :
    ∃ w out, indicator i = .ok w ∧ Frame.ofValue w = .ok out ∧
      Indicated (Builtin.indicatorOutput n.params).columns f out := by
  obtain ⟨name, hname, htext⟩ := Builtin.indicator_name h
  obtain ⟨period, hperiod, hpos, hsigned⟩ := Builtin.indicator_period h hfit
  rw [← hparams] at hcolumns htext hperiod ⊢
  have hcolumn := hcolumns _ (List.mem_singleton_self _)
  obtain ⟨added, hadded, hnames, hlength⟩ := indicatorColumns_spec hname htext
    (int_period hperiod hsigned) (f.numbers ((Builtin.text? i.params "column").getD "close"))
  have hlength' : ∀ p ∈ added, p.2.length = f.rows.length := fun p hp => by
    simpa [Frame.numbers] using hlength p hp
  have hself : List.Forall₂ (Frame.RowExtends []) f.rows f.rows :=
    List.forall₂_same.mpr fun row _ => .refl row
  have hrows := Frame.extends_setColumns hself hlength'
  obtain ⟨rows, hset⟩ := setColumns_eq added f
  refine ⟨_, _, indicator_eq hin hread hname htext hperiod hpos hcolumn hadded,
    Frame.ofValue_toValue _, ?_⟩
  rw [hset] at hrows ⊢
  refine ⟨rfl, ?_, fun key hkey => ?_⟩
  · rw [hnames] at hrows
    exact hrows
  · simp only [indicatorNotes, List.mem_cons, List.not_mem_nil, or_false, not_or] at hkey
    obtain ⟨hindicator, hperiod, hlength, hnames⟩ := hkey
    simp [Frame.note, Fields.get?_insert_of_ne, hindicator, hperiod, hlength, hnames]

theorem indicator_carries (h : Parametrized Builtin.indicator n) (hfit : Builtin.IntegersFit n)
    (hparams : i.params = n.params) {producer : String} {v : Value}
    (hin : i.inputs = [(producer, v)]) {columns : List String} (hv : v.Carries columns)
    (hcolumns : ∀ c ∈ Builtin.indicatorColumns n.params, c ∈ columns) :
    ∃ w, indicator i = .ok w ∧
      w.Carries (columns ++ (Builtin.indicatorOutput n.params).columns) := by
  obtain ⟨f, hread, hf⟩ := hv
  obtain ⟨w, out, hw, hout, hindicated⟩ := indicator_frame h hfit hparams hin hread
    fun c hc => hf.has c (hcolumns c hc)
  exact ⟨w, hw, out, hout, hf.extend hindicated.rows⟩

theorem indicator_indicated (haccepted : NoErrors (Validation.parameterFaults Builtin.indicator n))
    (hfit : Builtin.IntegersFit n) (hparams : i.params = n.params) {producer : String} {v : Value}
    (hin : i.inputs = [(producer, v)]) {f : Frame} (hread : Frame.ofValue v = .ok f)
    (hcolumns : ∀ c ∈ Builtin.indicatorColumns n.params, f.hasColumn c = true) :
    ∃ w out, indicator i = .ok w ∧ Frame.ofValue w = .ok out ∧
      Indicated (Builtin.indicatorOutput n.params).columns f out :=
  indicator_frame (Validation.parameterFaults_noErrors haccepted) hfit hparams hin hread hcolumns

/-- A node with bands around the closing price. -/
def bandsNode : Declaration :=
  { id := "bands", type := "IndicatorNode", dependsOn := ["load"]
    params := [("indicator", .str "BB"), ("period", .int 2), ("std_dev", .float 1.5)] }

/-- Rows with different columns, the first of which has one of the bands already. -/
def bandsRows : List Fields :=
  [[("BB_Upper_2", .str "high"), ("close", .int 3)], [("open", .int 4)], [("close", .str "5")]]

def bandsInvocation : Invocation :=
  { (default : Invocation) with
    params := bandsNode.params, inputs := [("load", .list (bandsRows.map .map))] }

theorem bandsRows_indicated :
    NoErrors (Validation.parameterFaults Builtin.indicator bandsNode) ∧
      Builtin.IntegersFit bandsNode ∧
      (∀ c ∈ Builtin.indicatorColumns bandsNode.params,
        ({ rows := bandsRows } : Frame).hasColumn c = true) ∧
      (Builtin.indicatorOutput bandsNode.params).columns =
        ["BB_Middle_2", "BB_Upper_2", "BB_Lower_2", "BB_Percent_2"] ∧
      ∃ w out, indicator bandsInvocation = .ok w ∧ Frame.ofValue w = .ok out ∧
        Indicated (Builtin.indicatorOutput bandsNode.params).columns { rows := bandsRows } out := by
  have haccepted : NoErrors (Validation.parameterFaults Builtin.indicator bandsNode) :=
    noErrors_of_eq_nil rfl
  have hfit : Builtin.IntegersFit bandsNode := by
    simp [Builtin.IntegersFit, bandsNode, Builtin.fits, Value.maxSigned]
  have hcolumns : ∀ c ∈ Builtin.indicatorColumns bandsNode.params,
      ({ rows := bandsRows } : Frame).hasColumn c = true := by decide
  have houtput : (Builtin.indicatorOutput bandsNode.params).columns =
      ["BB_Middle_2", "BB_Upper_2", "BB_Lower_2", "BB_Percent_2"] := by decide +kernel
  exact ⟨haccepted, hfit, hcolumns, houtput,
    indicator_indicated haccepted hfit rfl rfl rfl hcolumns⟩

end Flowline.Node
