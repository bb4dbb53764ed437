import Mathlib.Algebra.GroupWithZero.Nat
import Flowline.Proofs.Frame.Columns
import Flowline.Proofs.Node.Groups
import Flowline.Proofs.Validation.Parameters

/-!
# What aggregations report

Aggregations that validation lets pass divide the rows of a frame into groups and report one record
for each. The record begins with the value that the group shares and has one cell for each
aggregation in turn: the names of the aggregations are all different, so none writes over another.
-/
namespace Flowline.Node

variable {i : Invocation} {columns : List String} {g : Group} {spec : Value}

/-! ### One operation -/

/-- The cell of a row, unless it is missing or null. -/
def filledCell? (c : String) (row : Fields) : Option Value :=
  (Fields.get? row c).filter fun v => !v.isNull

theorem filter_cells (c : String) (rows : List Fields) :
    (rows.filterMap fun row => Fields.get? row c).filter (fun v => !v.isNull) =
      rows.filterMap (filledCell? c) := List.filter_filterMap

theorem reduce_count (rows : List Fields) :
    reduce "count" none rows = .ok (.ofNat rows.length) := rfl

theorem reduce_first (c : String) (rows : List Fields) :
    reduce "first" (some c) rows = .ok (.ofOption (rows.findSome? (filledCell? c))) := by
  rw [← List.head?_filterMap, ← filter_cells]
  rfl

theorem reduce_last (c : String) (rows : List Fields) :
    reduce "last" (some c) rows = .ok (.ofOption (rows.reverse.findSome? (filledCell? c))) := by
  rw [← List.getLast?_filterMap, ← filter_cells]
  rfl

theorem reduce_ok {op : String} (hop : op ∈ Builtin.aggregateOps) (column : Option String)
    (rows : List Fields) : ∃ v, reduce op column rows = .ok v := by
  simp only [Builtin.aggregateOps, List.mem_cons, List.not_mem_nil, or_false] at hop
  rcases hop with rfl | rfl | rfl | rfl | rfl | rfl | rfl <;> exact ⟨_, rfl⟩

/-! ### The record of one group -/

/-- An aggregation that validation lets pass, over columns that are there. -/
structure Sound (columns : List String) (spec : Value) : Prop where
  op : ∃ op ∈ Builtin.aggregateOps, (spec.get? "op").bind Value.asStr? = some op
  column : ∀ c, (spec.get? "column").bind Value.asStr? = some c → c ∈ columns

theorem Sound.column?_isSome {spec : Value} (h : Sound columns spec) :
    ∃ name, Builtin.aggregationColumn? spec = some name := by
  obtain ⟨op, -, hop⟩ := h.op
  unfold Builtin.aggregationColumn?
  cases (spec.get? "as").bind Value.asStr? with
  | some name => exact ⟨name, rfl⟩
  | none => exact ⟨_, by rw [hop]; rfl⟩

theorem aggregateInto_eq {f : Frame} {g : Group} (record : Fields) {spec : Value}
    {name op : String} {v : Value} (hname : Builtin.aggregationColumn? spec = some name)
    (hop : (spec.get? "op").bind Value.asStr? = some op)
    (hcolumn : ∀ c, (spec.get? "column").bind Value.asStr? = some c → f.hasColumn c = true)
    (hv : reduce op ((spec.get? "column").bind Value.asStr?) g.rows = .ok v) :
    aggregateInto i f g record spec = .ok (record.insert name v) := by
  unfold aggregateInto
  simp only [hname, ok_bind, hop, Option.getD_some, hv]
  cases hc : (spec.get? "column").bind Value.asStr? with
  | none => rfl
  | some c =>
    simp only [Frame.requireColumn_eq_ok (hcolumn c hc)]
    rfl

/-- The aggregation applies an operation to a column, or to none. -/
structure Applies (spec : Value) (op : String) (column : Option String) : Prop where
  op : (spec.get? "op").bind Value.asStr? = some op
  column : (spec.get? "column").bind Value.asStr? = column

/-- The field that an aggregation yields for a group. -/
structure Reduced (g : Group) (spec : Value) (field : String × Value) : Prop where
  name : Builtin.aggregationColumn? spec = some field.1
  value : ∀ op column, Applies spec op column → reduce op column g.rows = .ok field.2

/-- Aggregations with new names append their fields to a record. -/
theorem aggregations_append {f : Frame} (hf : f.Provides columns) (g : Group) {specs : List Value}
    (hspecs : ∀ spec ∈ specs, Sound columns spec) (record : Fields)
    (hnodup : (record.keys ++ specs.filterMap Builtin.aggregationColumn?).Nodup) :
    ∃ fields : Fields, specs.foldlM (aggregateInto i f g) record = .ok (record ++ fields) ∧
      fields.keys = specs.filterMap Builtin.aggregationColumn? ∧
      ∀ spec ∈ specs, ∃ field ∈ fields, Reduced g spec field := by
  induction specs generalizing record with
  | nil => exact ⟨[], by simp [pure, Except.pure], rfl, by simp⟩
  | cons spec specs ih =>
    rw [List.forall_mem_cons] at hspecs
    obtain ⟨op, hmem, hop⟩ := hspecs.1.op
    obtain ⟨name, hname⟩ := hspecs.1.column?_isSome
    obtain ⟨v, hv⟩ := reduce_ok hmem ((spec.get? "column").bind Value.asStr?) g.rows
    have hstep := aggregateInto_eq (i := i) record hname hop
      (fun c hc => hf.has c (hspecs.1.column c hc)) hv
    rw [List.filterMap_cons_some hname] at hnodup ⊢
    -- The name is new, so its field goes to the end and the names after it are new as well.
    have hnew : name ∉ record.keys := fun hkey =>
      (List.nodup_append.mp hnodup).2.2 name hkey name List.mem_cons_self rfl
    rw [Fields.insert_of_not_mem hnew] at hstep
    obtain ⟨fields, hfields, hkeys, hall⟩ :=
      ih hspecs.2 (record ++ [(name, v)]) (by simpa using hnodup)
    have hfield : Reduced g spec (name, v) := by
      refine ⟨hname, fun op' column happlies => ?_⟩
      obtain rfl : op' = op := Option.some.inj (happlies.op.symm.trans hop)
      exact happlies.column ▸ hv
    refine ⟨(name, v) :: fields, ?_, by rw [Fields.keys_cons, hkeys], ?_⟩
    · rw [List.foldlM_cons, hstep, ok_bind]
      simpa using hfields
    · refine List.forall_mem_cons.mpr ⟨⟨_, List.mem_cons_self, hfield⟩, fun s hs => ?_⟩
      obtain ⟨field, hmem, hreduced⟩ := hall s hs
      exact ⟨field, List.mem_cons_of_mem _ hmem, hreduced⟩

/-- The record of a group before its aggregations. -/
def openRecord (column : Option String) (g : Group) : Fields :=
  match column with
  | some c => [(c, g.key)]
  | none => []

theorem keys_openRecord (column : Option String) (g : Group) :
    (openRecord column g).keys = column.toList := by cases column <;> rfl

/-- The record of a group: its columns in order, the shared value, and what aggregations yield. -/
structure Reduces (params : Fields) (g : Group) (record : Fields) : Prop where
  keys : record.keys = (Builtin.aggregateOutput params).columns
  key : ∀ c, Builtin.text? params "group_by" = some c → record.get? c = some g.key
  reduced : ∀ spec ∈ Builtin.items params "aggregations", ∃ name v,
    Builtin.aggregationColumn? spec = some name ∧ record.get? name = some v ∧
      ∀ op column, Applies spec op column → reduce op column g.rows = .ok v

variable {params record : Fields}

theorem reduces_openRecord {specs : List Value}
    (hitems : Builtin.items params "aggregations" = specs)
    (hnodup : (Builtin.aggregateOutput params).columns.Nodup) {fields : Fields}
    (hkeys : fields.keys = specs.filterMap Builtin.aggregationColumn?)
    (hall : ∀ spec ∈ specs, ∃ field ∈ fields, Reduced g spec field) :
    Reduces params g (openRecord (Builtin.text? params "group_by") g ++ fields) := by
  have hcolumns : (openRecord (Builtin.text? params "group_by") g ++ fields).keys =
      (Builtin.aggregateOutput params).columns := by
    simp [Builtin.aggregateOutput, keys_openRecord, hkeys, hitems]
  rw [← hcolumns] at hnodup
  refine ⟨hcolumns, fun c hc => ?_, fun spec hspec => ?_⟩
  · simp [hc, openRecord, Fields.get?]
  · obtain ⟨field, hmem, hname, hvalue⟩ := hall spec (hitems ▸ hspec)
    exact ⟨field.1, field.2, hname,
      Fields.get?_of_mem hnodup (List.mem_append_right _ hmem), hvalue⟩

/-- The cell of an aggregation whose operation is known to yield a value. -/
theorem Reduces.cell (h : Reduces params g record)
    (hspec : spec ∈ Builtin.items params "aggregations") {op : String} {column : Option String}
    (happlies : Applies spec op column) {v : Value} (hv : reduce op column g.rows = .ok v)
    {name : String} (hname : Builtin.aggregationColumn? spec = some name) :
    record.get? name = some v := by
  obtain ⟨name', w, hname', hcell, hreduced⟩ := h.reduced spec hspec
  obtain rfl : name' = name := Option.some.inj (hname'.symm.trans hname)
  have hsame := (hreduced op column happlies).symm.trans hv
  rw [hcell, Except.ok.inj hsame]

/-- The record of a group, with what its counts and its first and last cells are. -/
structure Reports (params : Fields) (g : Group) (record : Fields) : Prop
    extends Reduces params g record where
  count : ∀ spec ∈ Builtin.items params "aggregations", Applies spec "count" none →
    ∀ name, Builtin.aggregationColumn? spec = some name →
      record.get? name = some (.ofNat g.rows.length)
  first : ∀ spec ∈ Builtin.items params "aggregations", ∀ c, Applies spec "first" (some c) →
    ∀ name, Builtin.aggregationColumn? spec = some name →
      record.get? name = some (.ofOption (g.rows.findSome? (filledCell? c)))
  last : ∀ spec ∈ Builtin.items params "aggregations", ∀ c, Applies spec "last" (some c) →
    ∀ name, Builtin.aggregationColumn? spec = some name →
      record.get? name = some (.ofOption (g.rows.reverse.findSome? (filledCell? c)))

theorem Reduces.reports (h : Reduces params g record) : Reports params g record where
  toReduces := h
  count _ hspec happlies _ := h.cell hspec happlies (reduce_count g.rows)
  first _ hspec c happlies _ := h.cell hspec happlies (reduce_first c g.rows)
  last _ hspec c happlies _ := h.cell hspec happlies (reduce_last c g.rows)

/-! ### All groups -/

/-- The number that a record has under a name. -/
def countIn (name : String) (record : Fields) : Nat :=
  ((record.get? name).bind Value.asNat?).getD 0

/-- The records of the groups, one for each. -/
structure Aggregated (params : Fields) (rows : List Fields) (out : Frame) : Prop where
  shape : out.shape = .dataframe
  records : ∃ gs, Grouped (sharedValue (Builtin.text? params "group_by")) rows gs ∧
    List.Forall₂ (Reports params) gs out.rows
  single : Builtin.text? params "group_by" = none → out.rows.length = 1
  counts : ∀ spec ∈ Builtin.items params "aggregations", Applies spec "count" none →
    ∀ name, Builtin.aggregationColumn? spec = some name →
      (out.rows.map (countIn name)).sum = rows.length

theorem sum_countIn {gs : List Group} {records : List Fields}
    (h : List.Forall₂ (Reports params) gs records)
    (hspec : spec ∈ Builtin.items params "aggregations") (happlies : Applies spec "count" none)
    {name : String} (hname : Builtin.aggregationColumn? spec = some name) :
    (records.map (countIn name)).sum = (gs.flatMap Group.rows).length := by
  induction h with
  | nil => rfl
  | cons hrecord _ ih =>
    simp [countIn, hrecord.count spec hspec happlies name hname, ih, Value.ofNat, Value.asNat?]

theorem sound_sharedValue (column : Option String) {row : Fields} (h : (Value.map row).Sound) :
    (sharedValue column row).Sound := by
  unfold sharedValue
  cases hcell : column.bind (Fields.get? row) with
  | none => exact .null
  | some v =>
    obtain ⟨c, -, hget⟩ := Option.bind_eq_some_iff.mp hcell
    exact h.get? hget

variable {n : Declaration}

/-- The records of the groups, once there is one for each. -/
theorem aggregate_eq {producer : String} {v : Value} (hin : i.inputs = [(producer, v)]) {f : Frame}
    (hread : Frame.ofValue v = .ok f) {specs : List Value}
    (hspecs : i.params.get? "aggregations" = some (.list specs))
    (hgroup : ∀ c, Builtin.text? i.params "group_by" = some c → f.hasColumn c = true)
    {rows : List Fields}
    (hrows : (groups (Builtin.text? i.params "group_by") f.rows).mapM (fun g =>
      specs.foldlM (aggregateInto i f g) (openRecord (Builtin.text? i.params "group_by") g)) =
        .ok rows) :
    aggregate i = .ok (({ rows } : Frame).note "groups"
      (.ofNat (groups (Builtin.text? i.params "group_by") f.rows).length)).toValue := by
  have hlist : (i.params.get? "aggregations").bind Value.asList? = some specs := by
    rw [hspecs]
    rfl
  have htext : i.text? "group_by" = Builtin.text? i.params "group_by" := rfl
  unfold aggregate
  simp only [Invocation.singleFrame_eq hin, hread, hlist, ok_bind, htext]
  cases hcolumn : Builtin.text? i.params "group_by" with
  | none =>
    rw [hcolumn] at hrows
    exact congrArg (· >>= _) hrows
  | some c =>
    rw [hcolumn] at hrows
    simp only [Frame.requireColumn_eq_ok (hgroup c hcolumn), ok_bind]
    exact congrArg (· >>= _) hrows

/-- Aggregations over a frame that has their columns somewhere. -/
theorem aggregate_records (h : Parametrized Builtin.aggregate n) (hparams : i.params = n.params)
    {producer : String} {v : Value} (hin : i.inputs = [(producer, v)]) {f : Frame}
    (hread : Frame.ofValue v = .ok f) (hf : f.Provides (Builtin.aggregateColumns n.params)) :
    ∃ w out, aggregate i = .ok w ∧ Frame.ofValue w = .ok out ∧ out.shape = .dataframe ∧
      List.Forall₂ (Reports n.params) (groups (Builtin.text? n.params "group_by") f.rows)
        out.rows := by
  obtain ⟨specs, hspecs, hops⟩ := Builtin.aggregate_specs h
  have hnodup := Builtin.aggregate_nodup h
  have hitems : Builtin.items n.params "aggregations" = specs := by
    simp [Builtin.items, hspecs, Value.asList?]
  have hsound : ∀ spec ∈ specs, Sound (Builtin.aggregateColumns n.params) spec := by
    refine fun spec hspec => ⟨hops spec hspec, fun c hc => mem_distinct.mpr ?_⟩
    exact List.mem_append_right _ (List.mem_filterMap.mpr ⟨spec, hitems ▸ hspec, hc⟩)
  have hgroup : ∀ c, Builtin.text? n.params "group_by" = some c → f.hasColumn c = true :=
    fun c hc => hf.has c (mem_distinct.mpr (by simp [hc]))
  rw [← hparams] at hspecs hnodup hitems hgroup ⊢
  obtain ⟨rows, hrows, hreports⟩ := mapM_forall₂ (p := Reports i.params)
    (l := groups (Builtin.text? i.params "group_by") f.rows) fun g _ => by
      obtain ⟨fields, hfields, hkeys, hall⟩ := aggregations_append (i := i) hf g hsound
        (openRecord (Builtin.text? i.params "group_by") g) (by
          simpa [keys_openRecord, Builtin.aggregateOutput, hitems] using hnodup)
      exact ⟨_, hfields, (reduces_openRecord hitems hnodup hkeys hall).reports⟩
  exact ⟨_, _, aggregate_eq hin hread hspecs hgroup hrows, Frame.ofValue_toValue _, rfl, hreports⟩

theorem aggregate_carries (h : Parametrized Builtin.aggregate n) (hparams : i.params = n.params)
    {producer : String} {v : Value} (hin : i.inputs = [(producer, v)])
    (hv : v.Carries (Builtin.aggregateColumns n.params)) :
    ∃ w, aggregate i = .ok w ∧ w.Carries (Builtin.aggregateOutput n.params).columns := by
  obtain ⟨f, hread, hf⟩ := hv
  obtain ⟨w, out, hw, hout, -, hreports⟩ := aggregate_records h hparams hin hread hf
  obtain ⟨g, gs, hgs⟩ := List.exists_cons_of_ne_nil
    (groups_ne_nil (Builtin.text? n.params "group_by") hf.nonempty)
  rw [hgs] at hreports
  obtain ⟨record, records, hrecord, -, hrows⟩ := List.forall₂_cons_left_iff.mp hreports
  refine ⟨w, hw, out, hout, by simp [hrows], fun c hc => Frame.hasColumn_iff.mpr ?_⟩
  rw [← hrecord.keys] at hc
  exact ⟨record, by simp [hrows], Fields.has_iff.mpr hc⟩

/-- The records of a frame are those of its groups. -/
theorem aggregate_aggregated
    (haccepted : NoErrors (Validation.parameterFaults Builtin.aggregate n))
    (hparams : i.params = n.params) {producer : String} {v : Value}
    (hin : i.inputs = [(producer, v)]) (hv : v.Sound) {f : Frame} (hread : Frame.ofValue v = .ok f)
    (hne : f.rows ≠ [])
    (hcolumns : ∀ c ∈ Builtin.aggregateColumns n.params, f.hasColumn c = true) :
    ∃ w out, aggregate i = .ok w ∧ Frame.ofValue w = .ok out ∧
      Aggregated n.params f.rows out := by
  obtain ⟨w, out, hw, hout, hshape, hreports⟩ := aggregate_records
    (Validation.parameterFaults_noErrors haccepted) hparams hin hread ⟨hne, hcolumns⟩
  have hgrouped := grouped_groups (Builtin.text? n.params "group_by") hne fun row hrow =>
    sound_sharedValue _ (Frame.sound_rows hv hread row hrow)
  refine ⟨w, out, hw, hout, hshape, ⟨_, hgrouped, hreports⟩, fun hnone => ?_,
    fun spec hspec happlies name hname => ?_⟩
  · have hlength := hreports.length_eq
    rw [hnone] at hlength
    exact hlength.symm
  · exact (sum_countIn hreports hspec happlies hname).trans hgrouped.perm.length_eq

/-- A node that counts the trades of a symbol and takes its first and last price. -/
def tradesNode : Declaration :=
  { id := "trades", type := "AggregateNode", dependsOn := ["load"]
    params := [("group_by", .str "symbol"), ("aggregations", .list [
      .map [("op", .str "count")],
      .map [("op", .str "first"), ("column", .str "price"), ("as", .str "open")],
      .map [("op", .str "last"), ("column", .str "price")]])] }

/-- Trades of two symbols, and of one that is missing or null. -/
def tradesRows : List Fields :=
  [[("symbol", .str "A"), ("price", .null)], [("symbol", .str "B"), ("price", .int 2)],
    [("price", .int 3)], [("symbol", .str "A"), ("price", .int 5)],
    [("symbol", .null), ("price", .int 4)]]

def tradesInvocation : Invocation :=
  { (default : Invocation) with
    params := tradesNode.params, inputs := [("load", .list (tradesRows.map .map))] }

theorem tradesRows_aggregated :
    NoErrors (Validation.parameterFaults Builtin.aggregate tradesNode) ∧
      (Value.list (tradesRows.map .map)).Sound ∧
      (∀ c ∈ Builtin.aggregateColumns tradesNode.params,
        ({ rows := tradesRows } : Frame).hasColumn c = true) ∧
      (Builtin.aggregateOutput tradesNode.params).columns =
        ["symbol", "count", "open", "price_last"] ∧
      ∃ w out, aggregate tradesInvocation = .ok w ∧ Frame.ofValue w = .ok out ∧
        Aggregated tradesNode.params tradesRows out := by
  have haccepted : NoErrors (Validation.parameterFaults Builtin.aggregate tradesNode) :=
    noErrors_of_eq_nil rfl
  have hsound : (Value.list (tradesRows.map .map)).Sound := by
    simp [tradesRows, Value.IsWord, Value.minInt, Value.maxUnsigned]
  have hcolumns : ∀ c ∈ Builtin.aggregateColumns tradesNode.params,
      ({ rows := tradesRows } : Frame).hasColumn c = true := by decide
  have houtput : (Builtin.aggregateOutput tradesNode.params).columns =
      ["symbol", "count", "open", "price_last"] := by decide +kernel
  exact ⟨haccepted, hsound, hcolumns, houtput, aggregate_aggregated haccepted rfl rfl hsound rfl
    (List.cons_ne_nil _ _) hcolumns⟩

end Flowline.Node
