import Mathlib.Data.List.Induction
import Flowline.Node.Builtin
import Flowline.Proofs.Frame.Columns
import Flowline.Proofs.Validation.Parameters

/-!
# Records among the parameters

The records of a node become its rows, all of them and in their order. Where columns are listed, the
cells of a record are taken out one by one: the first mention of a column uses its cell up, so a
column that is listed again ends as null. What a record has in the listed columns is kept exactly if
none of them that has something in it is listed again.
-/
namespace Flowline.Node

variable {names : List String} {row : Fields} {n : Declaration} {i : Invocation}

/-! ### One record -/

/-- Moves the cell of a column from what is left of a record to what has been taken out of it. -/
def takeCell (s : Fields × Fields) (c : String) : Fields × Fields :=
  (s.1.insert c ((s.2.get? c).getD .null), s.2.remove c)

theorem project_eq (names : List String) (row : Fields) :
    project names row = (names.foldl takeCell ([], row)).1 := rfl

theorem keys_takeCells (names : List String) (row : Fields) :
    (names.foldl takeCell ([], row)).1.keys = distinct names := by
  induction names using List.reverseRecOn with
  | nil => rfl
  | append_singleton names c ih =>
    rw [List.foldl_append, List.foldl_cons, List.foldl_nil, takeCell, Fields.keys_insert, ih,
      distinct_concat]
    simp only [mem_distinct]

theorem has_project {names : List String} {row : Fields} {c : String} (hc : c ∈ names) :
    Fields.has (project names row) c = true := by
  rw [Fields.has_iff, project_eq, keys_takeCells]
  exact mem_distinct.mpr hc

/-- What has been taken out of a record, and what is left of it. -/
structure Taken (names : List String) (row : Fields) (s : Fields × Fields) : Prop where
  once : ∀ c, names.count c = 1 → s.1.get? c = some ((row.get? c).getD .null)
  again : ∀ c, 1 < names.count c → s.1.get? c = some .null
  nodup : s.2.keys.Nodup
  left : ∀ c, s.2.get? c = if c ∈ names then none else row.get? c

theorem Taken.takeCell {s : Fields × Fields} (h : Taken names row s) (c : String) :
    Taken (names ++ [c]) row (takeCell s c) := by
  -- The column is either new, and its cell is still there, or nothing is left of it.
  refine ⟨fun k hk => ?_, fun k hk => ?_, Fields.nodup_remove h.nodup c, fun k => ?_⟩
  · rw [Node.takeCell, Fields.get?_insert, h.left]
    by_cases hkc : k = c
    · subst hkc
      have hnot : k ∉ names := List.count_eq_zero.mp (by simpa using hk)
      simp [hnot]
    · simpa [hkc] using h.once k (by simpa [Ne.symm hkc] using hk)
  · rw [Node.takeCell, Fields.get?_insert, h.left]
    by_cases hkc : k = c
    · subst hkc
      have hmem : k ∈ names := by simpa using hk
      simp [hmem]
    · simpa [hkc] using h.again k (by simpa [Ne.symm hkc] using hk)
  · rw [Node.takeCell, Fields.get?_remove h.nodup, h.left]
    by_cases hkc : k = c
    · simp [hkc]
    · simp [hkc]

theorem taken_takeCells (names : List String) (h : row.keys.Nodup) :
    Taken names row (names.foldl Node.takeCell ([], row)) := by
  induction names using List.reverseRecOn with
  | nil => exact ⟨by simp, by simp, h, by simp⟩
  | append_singleton names c ih =>
    rw [List.foldl_append]
    exact ih.takeCell c

/-- Every listed column has the cell that the record has, or null. -/
def Keeps (names : List String) (row out : Fields) : Prop :=
  ∀ c ∈ names, out.get? c = some ((row.get? c).getD .null)

/-- A column is listed again although the record has something in it. -/
def ListsAgain (names : List String) (row : Fields) : Prop :=
  ∃ c, 1 < names.count c ∧ (row.get? c).getD .null ≠ .null

/-- What becomes of a record for which columns are listed. -/
structure Projected (names : List String) (row out : Fields) : Prop where
  keys : out.keys = distinct names
  once : ∀ c, names.count c = 1 → out.get? c = some ((row.get? c).getD .null)
  again : ∀ c, 1 < names.count c → out.get? c = some .null
  keeps_iff : Keeps names row out ↔ ¬ ListsAgain names row

theorem Taken.keeps_iff {s : Fields × Fields} (h : Taken names row s) :
    Keeps names row s.1 ↔ ¬ ListsAgain names row := by
  constructor
  · rintro hkeeps ⟨c, hc, hcell⟩
    have hmem : c ∈ names := List.count_pos_iff.mp (Nat.zero_lt_of_lt hc)
    have hsame := (hkeeps c hmem).symm.trans (h.again c hc)
    exact hcell (Option.some.inj hsame)
  · intro hnot c hc
    by_cases hone : names.count c = 1
    · exact h.once c hone
    · have hpos := List.count_pos_iff.mpr hc
      have hmore : 1 < names.count c := by omega
      have hnull : (row.get? c).getD .null = .null := by
        by_contra hcell
        exact hnot ⟨c, hmore, hcell⟩
      rw [h.again c hmore, hnull]

theorem projected_project (names : List String) (h : row.keys.Nodup) :
    Projected names row (project names row) := by
  have htaken := taken_takeCells names h
  exact ⟨keys_takeCells names row, htaken.once, htaken.again, htaken.keeps_iff⟩

/-! ### All records -/

/-- The frame of records among the parameters, before the source is noted. -/
def inlineFrame (i : Invocation) (rows : List Fields) : Frame :=
  match (i.params.get? "columns").bind Value.asList? with
  | some names => { rows := rows.map (project (names.filterMap Value.asStr?)) }
  | none => { rows }

theorem inlineData_eq {rows : List Fields}
    (hrows : i.params.get? "rows" = some (.list (rows.map .map))) :
    inlineData i = .ok ((inlineFrame i rows).note "source" (.str "inline")).toValue := by
  have hread : Frame.ofValue (.list (rows.map .map)) = .ok { rows } :=
    congrArg (Functor.map _) (Frame.records_map rows)
  simp only [inlineData, hrows]
  change (Frame.ofValue (.list (rows.map .map)) >>= _) = _
  rw [hread, inlineFrame]
  cases (i.params.get? "columns").bind Value.asList? <;> rfl

theorem inlineFrame_provides {rows : List Fields}
    (hrows : i.params.get? "rows" = some (.list (rows.map .map))) (hne : rows ≠ []) :
    (inlineFrame i rows).Provides (Builtin.inlineOutput i.params).columns := by
  obtain ⟨row, rest, rfl⟩ := List.exists_cons_of_ne_nil hne
  unfold inlineFrame
  cases hcolumns : (i.params.get? "columns").bind Value.asList? with
  | none =>
    have houtput : (Builtin.inlineOutput i.params).columns = Fields.keys row := by
      simp [Builtin.inlineOutput, Builtin.texts?, hcolumns, Builtin.items, hrows, Value.asList?]
    refine ⟨List.cons_ne_nil _ _, fun c hc => ?_⟩
    rw [houtput] at hc
    exact Frame.hasColumn_iff.mpr ⟨row, List.mem_cons_self, Fields.has_iff.mpr hc⟩
  | some names =>
    have houtput : (Builtin.inlineOutput i.params).columns = names.filterMap Value.asStr? := by
      simp [Builtin.inlineOutput, Builtin.texts?, hcolumns]
    refine ⟨List.cons_ne_nil _ _, fun c hc => ?_⟩
    rw [houtput] at hc
    exact Frame.hasColumn_iff.mpr ⟨_, List.mem_cons_self, has_project hc⟩

theorem inlineData_carries {rows : List Fields}
    (hrows : i.params.get? "rows" = some (.list (rows.map .map))) (hne : rows ≠ []) :
    ∃ v, inlineData i = .ok v ∧ v.Carries (Builtin.inlineOutput i.params).columns :=
  ⟨_, inlineData_eq hrows, ((inlineFrame_provides hrows hne).note _ _).carries⟩

/-- The frame of the records among the parameters. -/
structure Embedded (params : Fields) (rows : List Fields) (out : Frame) : Prop where
  shape : out.shape = .dataframe
  records : (params.get? "columns" = none ∧ out.rows = rows) ∨
    ∃ names, params.get? "columns" = some (.strs names) ∧
      List.Forall₂ (Projected names) rows out.rows
  provides : rows ≠ [] → ∀ c ∈ (Builtin.inlineOutput params).columns, out.hasColumn c = true

theorem inlineFrame_whole (h : i.params.get? "columns" = none) (rows : List Fields) :
    inlineFrame i rows = { rows } := by simp [inlineFrame, h]

theorem inlineFrame_project (h : i.params.get? "columns" = some (.strs names))
    (rows : List Fields) : inlineFrame i rows = { rows := rows.map (project names) } := by
  simp [inlineFrame, h, Value.strs, Value.asList?, Value.asStr?, Function.comp_def]

/-- A node with records that validation lets pass. -/
theorem inlineData_embedded
    (haccepted : NoErrors (Validation.parameterFaults Builtin.inlineData n))
    (hsound : (Value.map n.params).Sound) (hparams : i.params = n.params) :
    ∃ rows w out, n.params.get? "rows" = some (.list (rows.map .map)) ∧ inlineData i = .ok w ∧
      Frame.ofValue w = .ok out ∧ Embedded n.params rows out := by
  have hp := Validation.parameterFaults_noErrors haccepted
  obtain ⟨rows, hrows⟩ := Builtin.inlineData_rows hp
  have hcolumns := Builtin.inlineData_columns hp
  have hnodup : ∀ row ∈ rows, row.keys.Nodup := fun row hrow =>
    ((hsound.get? hrows).items _ (List.mem_map_of_mem hrow)).nodup
  rw [← hparams] at hrows hcolumns ⊢
  refine ⟨rows, _, _, hrows, inlineData_eq hrows, Frame.ofValue_toValue _, ?_, ?_, ?_⟩
  · rcases hcolumns with hnone | ⟨names, hnames⟩
    · simp [inlineFrame_whole hnone, Frame.note]
    · simp [inlineFrame_project hnames, Frame.note]
  · refine hcolumns.imp (fun hnone => ⟨hnone, ?_⟩) fun ⟨names, hnames⟩ => ⟨names, hnames, ?_⟩
    · simp [inlineFrame_whole hnone, Frame.note]
    · simpa [inlineFrame_project hnames, Frame.note, List.forall₂_map_right_iff,
        List.forall₂_same] using fun row hrow => projected_project names (hnodup row hrow)
  · exact fun hne => (inlineFrame_provides hrows hne).has

/-- A node with records, of which columns are listed. -/
def recordsNode (columns : List String) (rows : List Fields) : Declaration :=
  { id := "records", type := "InlineDataNode", dependsOn := []
    params := [("rows", .list (rows.map .map)), ("columns", .strs columns)] }

def recordsInvocation (columns : List String) (rows : List Fields) : Invocation :=
  { (default : Invocation) with params := (recordsNode columns rows).params }

/-- Records with different columns. -/
def someRecords : List Fields := [[("a", .int 1), ("b", .int 2)], [("b", .str "x")]]

theorem someRecords_embedded :
    NoErrors (Validation.parameterFaults Builtin.inlineData
        (recordsNode ["b", "c", "c"] someRecords)) ∧
      (Value.map (recordsNode ["b", "c", "c"] someRecords).params).Sound ∧
      ∃ rows w out,
        (recordsNode ["b", "c", "c"] someRecords).params.get? "rows" =
          some (.list (rows.map .map)) ∧
        inlineData (recordsInvocation ["b", "c", "c"] someRecords) = .ok w ∧
        Frame.ofValue w = .ok out ∧
        Embedded (recordsNode ["b", "c", "c"] someRecords).params rows out := by
  have haccepted : NoErrors (Validation.parameterFaults Builtin.inlineData
      (recordsNode ["b", "c", "c"] someRecords)) := noErrors_of_eq_nil rfl
  have hsound : (Value.map (recordsNode ["b", "c", "c"] someRecords).params).Sound := by
    simp [recordsNode, someRecords, Value.strs, Value.IsWord, Value.minInt, Value.maxUnsigned]
  exact ⟨haccepted, hsound, inlineData_embedded haccepted hsound rfl⟩

/-- A column that is listed again is lost from a record that has something in it. -/
theorem listed_again_lost :
    NoErrors (Validation.parameterFaults Builtin.inlineData
        (recordsNode ["a", "a"] [[("a", .int 1)]])) ∧
      ∃ w out, inlineData (recordsInvocation ["a", "a"] [[("a", .int 1)]]) = .ok w ∧
        Frame.ofValue w = .ok out ∧ out.rows = [[("a", .null)]] ∧
        ¬ List.Forall₂ (Keeps ["a", "a"]) [[("a", .int 1)]] out.rows := by
  refine ⟨noErrors_of_eq_nil rfl, _, _, rfl, Frame.ofValue_toValue _, rfl, fun hkeeps => ?_⟩
  have hcell := (List.forall₂_cons.mp hkeeps).1 "a" List.mem_cons_self
  cases hcell

end Flowline.Node
