import Mathlib.Data.List.Induction
import Flowline.Node.Aggregate
import Flowline.Proofs.Data.Same

/-!
# Groups of rows

Rows are divided by a value that each of them has: there is one group for each value, in order of
first appearance, and it holds the rows with that value in their order. One row more is one step,
which either extends the one group that has its value or opens a group at the end.
-/
namespace Flowline

namespace Value

/-! ### Values, each once -/

/-- The values in order of first appearance, without those that are the same as an earlier one. -/
def eachOnce : List Value → List Value
  | [] => []
  | v :: rest => v :: (eachOnce rest).filter fun w => !v.same w

theorem mem_of_mem_eachOnce {v : Value} {vs : List Value} (h : v ∈ eachOnce vs) : v ∈ vs := by
  induction vs with
  | nil => simp [eachOnce] at h
  | cons w vs ih =>
    simp only [eachOnce, List.mem_cons, List.mem_filter] at h
    exact List.mem_cons.mpr (h.imp_right fun h => ih h.1)

theorem pairwise_eachOnce (vs : List Value) :
    (eachOnce vs).Pairwise fun v w => v.same w = false := by
  induction vs with
  | nil => simp [eachOnce]
  | cons v vs ih =>
    refine List.pairwise_cons.mpr ⟨fun w hw => ?_, ih.filter _⟩
    simpa using (List.mem_filter.mp hw).2

theorem eachOnce_concat (vs : List Value) (v : Value) :
    eachOnce (vs ++ [v]) = if vs.any (·.same v) then eachOnce vs else eachOnce vs ++ [v] := by
  induction vs with
  | nil => simp [eachOnce]
  | cons w vs ih =>
    rw [List.cons_append, eachOnce, ih, eachOnce]
    by_cases hvs : vs.any (·.same v) = true
    · simp [hvs]
    · by_cases hw : w.same v = true
      · simp [hvs, hw]
      · simp [hvs, hw]

theorem eachOnce_replicate_null (n : Nat) : eachOnce (null :: List.replicate n null) = [null] := by
  induction n with
  | zero => rfl
  | succ n ih =>
    rw [List.replicate_succ, eachOnce, ih]
    rfl

theorem Sound.exists_eachOnce {v : Value} {vs : List Value} (hv : v.Sound) (h : v ∈ vs) :
    ∃ w ∈ eachOnce vs, w.same v = true := by
  induction vs with
  | nil => simp at h
  | cons u vs ih =>
    by_cases hu : u.same v = true
    · exact ⟨u, List.mem_cons_self, hu⟩
    · have hmem : v ∈ vs := by
        refine (List.mem_cons.mp h).resolve_left fun heq => hu ?_
        exact heq ▸ hv.same_self
      obtain ⟨w, hw, hsame⟩ := ih hmem
      have hnot : u.same w = false := by
        by_contra huw
        exact hu (same_trans (by simpa using huw) hsame)
      exact ⟨w, List.mem_cons_of_mem _ (List.mem_filter.mpr ⟨hw, by simp [hnot]⟩), hsame⟩

end Value

namespace Node

/-! ### The groups by a value -/

/-- What rows are grouped by: their cell in a column, null standing for a cell that is missing. -/
def sharedValue (column : Option String) (row : Fields) : Value :=
  (column.bind (Fields.get? row)).getD .null

/-- The groups of the rows by a value. -/
structure Grouped (value : Fields → Value) (rows : List Fields) (gs : List Group) : Prop where
  keys : gs.map Group.key = Value.eachOnce (rows.map value)
  members : ∀ g ∈ gs, g.rows = rows.filter fun row => g.key.same (value row)
  /-- No row is lost, and none is in two groups. -/
  perm : (gs.flatMap Group.rows).Perm rows

variable {value : Fields → Value} {rows : List Fields} {gs : List Group}

theorem addToGroup_of_new {key : Value} (row : Fields) (h : ∀ g ∈ gs, g.key.same key = false) :
    addToGroup key row gs = gs ++ [⟨key, [row]⟩] := by
  induction gs with
  | nil => rfl
  | cons g gs ih =>
    rw [List.forall_mem_cons] at h
    simp [addToGroup, h.1, ih h.2]

theorem addToGroup_append {key : Value} (row : Fields) {front back : List Group} {g : Group}
    (hfront : ∀ h ∈ front, h.key.same key = false) (hg : g.key.same key = true) :
    addToGroup key row (front ++ g :: back) =
      front ++ { g with rows := g.rows ++ [row] } :: back := by
  induction front with
  | nil => simp [addToGroup, hg]
  | cons h front ih =>
    rw [List.forall_mem_cons] at hfront
    simp [addToGroup, hfront.1, ih hfront.2]

theorem Grouped.pairwise (h : Grouped value rows gs) :
    gs.Pairwise fun g g' => g.key.same g'.key = false :=
  List.pairwise_map.mp (h.keys ▸ Value.pairwise_eachOnce _)

theorem Grouped.sound_key (h : Grouped value rows gs) (hs : ∀ row ∈ rows, (value row).Sound)
    {g : Group} (hg : g ∈ gs) : g.key.Sound := by
  have hkey : g.key ∈ Value.eachOnce (rows.map value) := h.keys ▸ List.mem_map_of_mem hg
  obtain ⟨row, hrow, heq⟩ := List.mem_map.mp (Value.mem_of_mem_eachOnce hkey)
  exact heq ▸ hs row hrow

/-- A row whose value is that of a group extends this group, and no other group has its value. -/
theorem Grouped.extend (h : Grouped value rows gs) (hs : ∀ row ∈ rows, (value row).Sound)
    {row : Fields} (hrow : (value row).Sound) {g : Group} (hg : g ∈ gs)
    (hsame : g.key.same (value row) = true) :
    Grouped value (rows ++ [row]) (addToGroup (value row) row gs) := by
  have hkeys := h.keys
  have hmembers := h.members
  have hperm := h.perm
  have hseen : (rows.map value).any (·.same (value row)) = true := by
    have hkey : g.key ∈ Value.eachOnce (rows.map value) := hkeys ▸ List.mem_map_of_mem hg
    exact List.any_eq_true.mpr ⟨g.key, Value.mem_of_mem_eachOnce hkey, hsame⟩
  have hback : (value row).same g.key = true := (h.sound_key hs hg).same_symm hrow hsame
  obtain ⟨front, back, rfl⟩ := List.append_of_mem hg
  obtain ⟨_, hpair, hbefore⟩ := List.pairwise_append.mp h.pairwise
  have hfront : ∀ g' ∈ front, g'.key.same (value row) = false := by
    intro g' hg'
    by_contra hsame'
    have hkey := Value.same_trans (by simpa using hsame') hback
    simp [hbefore g' hg' g List.mem_cons_self] at hkey
  have hrest : ∀ g' ∈ back, g'.key.same (value row) = false := by
    intro g' hg'
    by_contra hsame'
    have hsound := h.sound_key hs (List.mem_append_right _ (List.mem_cons_of_mem _ hg'))
    have hkey := Value.same_trans hsame (hsound.same_symm hrow (by simpa using hsame'))
    simp [(List.pairwise_cons.mp hpair).1 g' hg'] at hkey
  rw [addToGroup_append row hfront hsame]
  simp only [List.forall_mem_append, List.forall_mem_cons] at hmembers
  refine ⟨?_, ?_, ?_⟩
  · have hconcat : (rows ++ [row]).map value = rows.map value ++ [value row] := by simp
    rw [hconcat, Value.eachOnce_concat, if_pos hseen, ← hkeys]
    simp
  · simp only [List.forall_mem_append, List.forall_mem_cons, List.filter_append]
    refine ⟨fun g' hg' => ?_, ?_, fun g' hg' => ?_⟩
    · simp [hmembers.1 g' hg', hfront g' hg']
    · simp [hmembers.2.1, hsame]
    · simp [hmembers.2.2 g' hg', hrest g' hg']
  · simp only [List.flatMap_append, List.flatMap_cons] at hperm ⊢
    refine List.Perm.trans ?_ (hperm.append_right [row])
    simp only [List.append_assoc]
    exact ((List.perm_append_comm).append_left g.rows).append_left _

/-- A row whose value no group has opens a group. -/
theorem Grouped.open (h : Grouped value rows gs) (hs : ∀ row ∈ rows, (value row).Sound)
    {row : Fields} (hrow : (value row).Sound) (hnew : ∀ g ∈ gs, g.key.same (value row) = false) :
    Grouped value (rows ++ [row]) (addToGroup (value row) row gs) := by
  have hnone : ∀ r ∈ rows, (value r).same (value row) = false := by
    intro r hr
    by_contra hsame
    obtain ⟨v, hv, hkey⟩ := (hs r hr).exists_eachOnce (List.mem_map_of_mem (f := value) hr)
    rw [← h.keys] at hv
    obtain ⟨g, hg, rfl⟩ := List.mem_map.mp hv
    have := Value.same_trans hkey (by simpa using hsame)
    simp [hnew g hg] at this
  have hnone' : ∀ r ∈ rows, (value row).same (value r) = false := by
    intro r hr
    by_contra hsame
    have := hrow.same_symm (hs r hr) (by simpa using hsame)
    simp [hnone r hr] at this
  rw [addToGroup_of_new row hnew]
  refine ⟨?_, ?_, ?_⟩
  · have hnot : ¬ (rows.map value).any (·.same (value row)) = true := by simpa using hnone
    rw [List.map_append, List.map_append, List.map_singleton, List.map_singleton,
      Value.eachOnce_concat, if_neg hnot, h.keys]
  · simp only [List.forall_mem_append, List.forall_mem_singleton, List.filter_append]
    refine ⟨fun g hg => ?_, ?_⟩
    · simp [h.members g hg, hnew g hg]
    · have hfilter : rows.filter (fun r => (value row).same (value r)) = [] := by
        simpa using hnone'
      simp [hfilter, hrow.same_self]
  · rw [List.flatMap_append]
    simpa using h.perm.append_right [row]

/-- Rows that are added one after the other are grouped by their values. -/
theorem grouped_foldl (value : Fields → Value) {rows : List Fields}
    (hs : ∀ row ∈ rows, (value row).Sound) :
    Grouped value rows (rows.foldl (fun gs row => addToGroup (value row) row gs) []) := by
  induction rows using List.reverseRecOn with
  | nil => exact ⟨rfl, by simp, by simp⟩
  | append_singleton rows row ih =>
    simp only [List.forall_mem_append, List.forall_mem_singleton] at hs
    rw [List.foldl_append, List.foldl_cons, List.foldl_nil]
    have hrows := ih hs.1
    by_cases hseen : ∃ g ∈ rows.foldl (fun gs row => addToGroup (value row) row gs) [],
        g.key.same (value row) = true
    · obtain ⟨g, hg, hsame⟩ := hseen
      exact hrows.extend hs.1 hs.2 hg hsame
    · exact hrows.open hs.1 hs.2 (by simpa using hseen)

/-- Rows that are grouped by no column are one group, if there are any. -/
theorem grouped_single {rows : List Fields} (hne : rows ≠ []) :
    Grouped (fun _ => .null) rows [⟨.null, rows⟩] := by
  obtain ⟨row, rows, rfl⟩ := List.exists_cons_of_ne_nil hne
  refine ⟨?_, ?_, ?_⟩
  · simpa using (Value.eachOnce_replicate_null rows.length).symm
  · simp [Value.same]
  · simp

/-- The groups that aggregations work on. -/
theorem grouped_groups (column : Option String) {rows : List Fields} (hne : rows ≠ [])
    (hs : ∀ row ∈ rows, (sharedValue column row).Sound) :
    Grouped (sharedValue column) rows (groups column rows) := by
  cases column with
  | none => exact grouped_single hne
  | some c => exact grouped_foldl (sharedValue (some c)) hs

theorem addToGroup_ne_nil (key : Value) (row : Fields) (gs : List Group) :
    addToGroup key row gs ≠ [] := by
  cases gs with
  | nil => simp [addToGroup]
  | cons g rest =>
    unfold addToGroup
    split <;> simp

theorem groups_ne_nil (column : Option String) {rows : List Fields} (hrows : rows ≠ []) :
    groups column rows ≠ [] := by
  cases column with
  | none => simp [groups]
  | some c =>
    -- The last row leaves a group, whatever the rows before it did.
    rw [groups, ← List.dropLast_concat_getLast hrows, List.foldl_append]
    exact addToGroup_ne_nil _ _ _

end Node
end Flowline
