import Mathlib.Data.List.Forall2
import Flowline.Node.Basic
import Flowline.Proofs.Data.Record
import Flowline.Proofs.Document.Distinct

/-! Columns of frames: which operations keep a column, and which add one. -/
namespace Flowline

/-! ### Frames -/

namespace Frame

theorem hasColumn_iff {f : Frame} {column : String} :
    f.hasColumn column = true ↔ ∃ row ∈ f.rows, Fields.has row column = true := by
  simp [hasColumn]

theorem mem_columns {f : Frame} {column : String} :
    column ∈ f.columns ↔ f.hasColumn column = true := by
  have hfold : ∀ (rows : List Fields) (seen : List String),
      column ∈ rows.foldl (fun seen row =>
        seen ++ distinct ((Fields.keys row).filter fun k => !seen.contains k)) seen ↔
      column ∈ seen ∨ ∃ row ∈ rows, column ∈ Fields.keys row := by
    intro rows
    induction rows with
    | nil => simp
    | cons row rows ih =>
      intro seen
      rw [List.foldl_cons, ih]
      by_cases hseen : column ∈ seen
      · simp [hseen]
      · simp [hseen]
  rw [columns, hfold, hasColumn_iff]
  simp [Fields.has_iff]

theorem requireColumn_eq_ok {f : Frame} {node column : String} (h : f.hasColumn column = true) :
    f.requireColumn node column = .ok () := if_pos h

theorem mapM_zipIdx_map {read : Value × Nat → Except NodeError Fields}
    (hread : ∀ row i, read (.map row, i) = .ok row) (rows : List Fields) (i : Nat) :
    ((rows.map Value.map).zipIdx i).mapM read = .ok rows := by
  induction rows generalizing i with
  | nil => rfl
  | cons row rows ih =>
    rw [List.map_cons, List.zipIdx_cons, List.mapM_cons, hread, ih]
    rfl

theorem records_map (rows : List Fields) : records (rows.map .map) = .ok rows :=
  mapM_zipIdx_map (fun _ _ => rfl) rows 0

theorem eq_of_mapM_zipIdx {read : Value × Nat → Except NodeError Fields}
    (hread : ∀ p row, read p = .ok row → p.1 = .map row) {items : List Value} {i : Nat}
    {rows : List Fields} (h : (items.zipIdx i).mapM read = .ok rows) :
    items = rows.map .map := by
  have hpairs : List.Forall₂ (fun v row => v = .map row) ((items.zipIdx i).map Prod.fst) rows :=
    List.forall₂_map_left_iff.mpr ((forall₂_of_mapM h).imp hread)
  rw [List.zipIdx_map_fst] at hpairs
  have hequal : List.Forall₂ (· = ·) items (rows.map .map) := List.forall₂_map_right_iff.mpr hpairs
  rwa [List.forall₂_eq_eq_eq] at hequal

theorem eq_map_of_records {items : List Value} {rows : List Fields}
    (h : records items = .ok rows) : items = rows.map .map := by
  refine eq_of_mapM_zipIdx (fun p row hp => ?_) h
  obtain ⟨v, k⟩ := p
  cases v with
  | map fs => exact congrArg Value.map (Except.ok.inj hp)
  | _ => cases hp

/-- A frame is read from a list of records, bare or under its name. -/
theorem exists_records {v : Value} {f : Frame} (h : ofValue v = .ok f) :
    ∃ items, records items = .ok f.rows ∧
      (v = .list items ∨ ∃ fs, v = .map fs ∧ Fields.get? fs "data" = some (.list items)) := by
  cases v with
  | list items =>
    obtain ⟨rows, hrows, ⟨⟩⟩ := exists_of_bind_eq_ok h
    exact ⟨items, hrows, .inl rfl⟩
  | map fs =>
    simp only [ofValue] at h
    cases hdata : (Fields.get? fs "data").bind Value.asList? with
    | none =>
      simp only [hdata] at h
      cases h
    | some items =>
      simp only [hdata] at h
      obtain ⟨_, ⟨⟩, h⟩ := exists_of_bind_eq_ok h
      obtain ⟨rows, hrows, ⟨⟩⟩ := exists_of_bind_eq_ok h
      obtain ⟨data, hget, hlist⟩ := Option.bind_eq_some_iff.mp hdata
      rw [Value.asList?_eq_some.mp hlist] at hget
      exact ⟨items, hrows, .inr ⟨fs, rfl, hget⟩⟩
  | _ => cases h

/-- The rows of a frame that is read from a sound value. -/
theorem sound_rows {v : Value} (hv : v.Sound) {f : Frame} (h : ofValue v = .ok f) :
    ∀ row ∈ f.rows, (Value.map row).Sound := by
  obtain ⟨items, hrecords, hcases⟩ := exists_records h
  have hitems : ∀ item ∈ items, item.Sound := by
    rcases hcases with rfl | ⟨fs, rfl, hdata⟩
    · exact hv.items
    · exact (hv.get? hdata).items
  rw [eq_map_of_records hrecords] at hitems
  exact fun row hrow => hitems _ (List.mem_map_of_mem hrow)

/-- A frame that is written is read back, with what was noted of it. -/
theorem ofValue_toValue (f : Frame) : ofValue f.toValue = .ok { f with
    metadata := (f.metadata.insert "rows" (.ofNat f.rows.length)).insert "columns"
      (.strs f.columns) } := by
  have hshape : Shape.ofName? f.shape.name = some f.shape := by cases f.shape <;> decide
  simp only [ofValue, toValue, Fields.get?, String.reduceEq, if_false, if_true, Option.bind_some,
    Value.asList?, Value.asStr?, Value.asMap?, hshape, Option.getD_some]
  exact congrArg (Functor.map _) (records_map f.rows)

/-! ### Writing columns -/

theorem length_writeColumn (column : String) (rows : List Fields) (values : Series) :
    (writeColumn column rows values).length = rows.length := by
  induction rows generalizing values with
  | nil => cases values <;> rfl
  | cons row rows ih =>
    cases values with
    | nil => rfl
    | cons x xs => simp [writeColumn, ih]

/-- The cells of a column, row by row. -/
def cells (f : Frame) (column : String) : List (Option Value) :=
  f.rows.map fun row => Fields.get? row column

theorem length_numbers (f : Frame) (column : String) :
    (f.numbers column).length = f.rows.length := List.length_map _

theorem cells_setColumn (f : Frame) (column : String) {values : Series}
    (h : values.length = f.rows.length) (c : String) : (f.setColumn column values).cells c =
      if c = column then values.map fun x => some (Value.ofFloat? x) else f.cells c := by
  have hrows : ∀ (rows : List Fields) (values : Series), values.length = rows.length →
      (writeColumn column rows values).map (fun row => Fields.get? row c) =
        if c = column then values.map fun x => some (Value.ofFloat? x)
        else rows.map fun row => Fields.get? row c := by
    intro rows
    induction rows with
    | nil =>
      intro values h
      obtain rfl := List.length_eq_zero_iff.mp h
      simp [writeColumn]
    | cons row rows ih =>
      intro values h
      cases values with
      | nil => cases h
      | cons x values =>
        rw [writeColumn, List.map_cons, Fields.get?_insert, ih values (Nat.succ.inj h)]
        split <;> rfl
  exact hrows f.rows values h

/-- A frame with at least one row, and with these columns. -/
structure Provides (f : Frame) (columns : List String) : Prop where
  nonempty : f.rows ≠ []
  has : ∀ c ∈ columns, f.hasColumn c = true

theorem Provides.mono {f : Frame} {columns fewer : List String} (h : f.Provides columns)
    (hsub : ∀ c ∈ fewer, c ∈ columns) : f.Provides fewer :=
  ⟨h.nonempty, fun c hc => h.has c (hsub c hc)⟩

theorem Provides.note {f : Frame} {columns : List String} (h : f.Provides columns) (key : String)
    (v : Value) : (f.note key v).Provides columns := ⟨h.nonempty, h.has⟩

/-! ### Rows with more columns -/

/-- The row with columns added: each of them has a cell, and apart from them the row is as it was.
-/
structure RowExtends (columns : List String) (row out : Fields) : Prop where
  added : ∀ c ∈ columns, ∃ x, out.get? c = some (Value.ofFloat? x)
  kept : ∀ c, c ∉ columns → out.get? c = row.get? c
  places : row.keys <+: out.keys

theorem RowExtends.refl (row : Fields) : RowExtends [] row row :=
  ⟨by simp, fun _ _ => rfl, List.prefix_refl _⟩

theorem RowExtends.insert {columns : List String} {row out : Fields}
    (h : RowExtends columns row out) (column : String) (x : Option Float) :
    RowExtends (columns ++ [column]) row (out.insert column (Value.ofFloat? x)) := by
  refine ⟨fun c hc => ?_, fun c hc => ?_, h.places.trans ?_⟩
  · by_cases heq : c = column
    · exact ⟨x, heq ▸ Fields.get?_insert_self out column _⟩
    · rw [Fields.get?_insert_of_ne heq]
      exact h.added c (by simpa [heq] using hc)
  · rw [List.mem_append, List.mem_singleton, not_or] at hc
    rw [Fields.get?_insert_of_ne hc.2, h.kept c hc.1]
  · rw [Fields.keys_insert]
    split
    · exact List.prefix_refl _
    · exact List.prefix_append _ _

theorem extends_writeColumn {columns : List String} {rows outs : List Fields} {values : Series}
    (h : List.Forall₂ (RowExtends columns) rows outs) (hlen : values.length = outs.length)
    (column : String) :
    List.Forall₂ (RowExtends (columns ++ [column])) rows (writeColumn column outs values) := by
  induction h generalizing values with
  | nil => simp [writeColumn]
  | cons hrow _ ih =>
    cases values with
    | nil => simp at hlen
    | cons x values => exact .cons (hrow.insert column x) (ih (by simpa using hlen))

/-- Columns that are set one after the other, each with a number for every row. -/
theorem extends_setColumns {columns : List String} {rows : List Fields} {f : Frame}
    (h : List.Forall₂ (RowExtends columns) rows f.rows) {added : List (String × Series)}
    (hlen : ∀ p ∈ added, p.2.length = f.rows.length) :
    List.Forall₂ (RowExtends (columns ++ added.map (·.1))) rows
      (added.foldl (fun f (c, values) => f.setColumn c values) f).rows := by
  induction added generalizing f columns with
  | nil => simpa using h
  | cons p added ih =>
    rw [List.forall_mem_cons] at hlen
    have hlen' : ∀ q ∈ added, q.2.length = (f.setColumn p.1 p.2).rows.length := fun q hq =>
      (hlen.2 q hq).trans (length_writeColumn p.1 f.rows p.2).symm
    simpa using ih (extends_writeColumn h hlen.1 p.1) hlen'

theorem Provides.extend {f out : Frame} {columns more : List String} (h : f.Provides columns)
    (hrows : List.Forall₂ (RowExtends more) f.rows out.rows) : out.Provides (columns ++ more) := by
  have hkeeps : ∀ {rows outs : List Fields}, List.Forall₂ (RowExtends more) rows outs →
      ∀ row ∈ rows, ∃ out ∈ outs, RowExtends more row out := by
    intro rows outs hrows
    induction hrows with
    | nil => simp
    | cons hrow _ ih =>
      refine List.forall_mem_cons.mpr ⟨⟨_, List.mem_cons_self, hrow⟩, fun row hmem => ?_⟩
      obtain ⟨out, hout, hextends⟩ := ih row hmem
      exact ⟨out, List.mem_cons_of_mem _ hout, hextends⟩
  refine ⟨fun hnil => ?_, fun c hc => hasColumn_iff.mpr ?_⟩
  · rw [hnil, List.forall₂_nil_right_iff] at hrows
    exact h.nonempty hrows
  · rcases List.mem_append.mp hc with hc | hc
    · obtain ⟨row, hrow, hhas⟩ := hasColumn_iff.mp (h.has c hc)
      obtain ⟨r, hr, hextends⟩ := hkeeps hrows row hrow
      exact ⟨r, hr, Fields.has_iff.mpr (hextends.places.subset (Fields.has_iff.mp hhas))⟩
    · obtain ⟨row, rest, hcons⟩ := List.exists_cons_of_ne_nil h.nonempty
      obtain ⟨r, hr, hextends⟩ := hkeeps hrows row (hcons ▸ List.mem_cons_self)
      obtain ⟨x, hx⟩ := hextends.added c hc
      exact ⟨r, hr, Fields.has_iff.mpr (List.mem_map_of_mem (f := Prod.fst) (Fields.get?_mem hx))⟩

end Frame

theorem Invocation.singleFrame_eq {i : Invocation} {producer : String} {v : Value}
    (hin : i.inputs = [(producer, v)]) : i.singleFrame = Frame.ofValue v := by
  rw [Invocation.singleFrame, hin]

/-- The value is read as a frame with at least one row, and with these columns. -/
def Value.Carries (v : Value) (columns : List String) : Prop :=
  ∃ f, Frame.ofValue v = .ok f ∧ f.Provides columns

theorem Value.Carries.mono {v : Value} {columns fewer : List String} (h : v.Carries columns)
    (hsub : ∀ c ∈ fewer, c ∈ columns) : v.Carries fewer := by
  obtain ⟨f, hread, hf⟩ := h
  exact ⟨f, hread, hf.mono hsub⟩

theorem Frame.Provides.carries {f : Frame} {columns : List String} (h : f.Provides columns) :
    f.toValue.Carries columns := ⟨_, f.ofValue_toValue, h.nonempty, h.has⟩

end Flowline
