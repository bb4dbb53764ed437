import Flowline.Proofs.Data.Record
import Flowline.Toml.Reader

/-!
# Values read from TOML

No step that adds to the tables of a document repeats a key, so the finished document is a sound value
if its scalars are. The readers find sound scalars only, so whatever the text, the document that is read
from it is a sound value.
-/
namespace Flowline.Toml

open Value (Sound)

/-- A value that is sound in the finished document. -/
def Datum.IsSound (d : Datum) : Prop := Sound d.toValue

theorem itemValues_eq_map (items : List Datum) : itemValues items = items.map Datum.toValue := by
  induction items with
  | nil => rfl
  | cons d items ih => rw [itemValues, ih, List.map_cons]

theorem fieldValues_eq_map (es : List (String × Datum)) :
    fieldValues es = es.map fun e => (e.1, e.2.toValue) := by
  induction es with
  | nil => rfl
  | cons e es ih => rw [fieldValues, ih, List.map_cons]

theorem entryData_eq_map (es : Entries) : entryData es = es.map fun e => (e.1, e.2.datum) := by
  induction es with
  | nil => rfl
  | cons e es ih => rw [entryData, ih, List.map_cons]

theorem tableData_eq_map (tables : List Entries) :
    tableData tables = tables.map fun es => .table (entryData es) := by
  induction tables with
  | nil => rfl
  | cons es tables ih => rw [tableData, ih, List.map_cons]

theorem Datum.isSound_list {items : List Datum} (h : ∀ d ∈ items, d.IsSound) :
    IsSound (.list items) := by
  refine .list fun v hv => ?_
  rw [itemValues_eq_map] at hv
  obtain ⟨d, hd, rfl⟩ := List.mem_map.mp hv
  exact h d hd

/-- Sorting keeps the fields and their keys. -/
theorem Datum.isSound_table {es : List (String × Datum)} (hnodup : (es.map Prod.fst).Nodup)
    (h : ∀ e ∈ es, e.2.IsSound) : IsSound (.table es) := by
  have hperm : (sortFields (fieldValues es)).Perm (fieldValues es) := List.mergeSort_perm ..
  have hkeys : (fieldValues es).map Prod.fst = es.map Prod.fst := by
    rw [fieldValues_eq_map, List.map_map]
    rfl
  refine .map ((hperm.map Prod.fst).nodup_iff.mpr (hkeys.symm ▸ hnodup)) fun f hf => ?_
  have hmem := hperm.subset hf
  rw [fieldValues_eq_map] at hmem
  obtain ⟨e, he, rfl⟩ := List.mem_map.mp hmem
  exact h e he

/-! ### Tables under construction -/

/-- No table in an item repeats a key, and its values are sound. -/
inductive Item.Tidy : Item → Prop
  | value {d : Datum} : d.IsSound → Tidy (.value d)
  | table {origin : Origin} {es : List (String × Item)} : (es.map Prod.fst).Nodup →
    (∀ e ∈ es, Tidy e.2) → Tidy (.table origin es)
  | tables {closed : List (List (String × Item))} {last : List (String × Item)} :
    (∀ es ∈ closed ++ [last], (es.map Prod.fst).Nodup) →
    (∀ es ∈ closed ++ [last], ∀ e ∈ es, Tidy e.2) → Tidy (.tables closed last)

structure Entries.Tidy (es : Entries) : Prop where
  nodup : (es.map Prod.fst).Nodup
  items : ∀ e ∈ es, e.2.Tidy

theorem Item.tidy_table {origin : Origin} {es : Entries} :
    Item.Tidy (.table origin es) ↔ Entries.Tidy es :=
  ⟨fun h => by cases h with | table hnodup hitems => exact ⟨hnodup, hitems⟩,
    fun h => .table h.nodup h.items⟩

theorem Item.tidy_tables {closed : List Entries} {last : Entries} :
    Item.Tidy (.tables closed last) ↔ ∀ es ∈ closed ++ [last], Entries.Tidy es :=
  ⟨fun h => by cases h with | tables hnodup hitems => exact fun es hes => ⟨hnodup es hes, hitems es hes⟩,
    fun h => .tables (fun es hes => (h es hes).nodup) fun es hes => (h es hes).items⟩

theorem isSound_entryData {es : Entries} (hnodup : (es.map Prod.fst).Nodup)
    (h : ∀ e ∈ es, e.2.datum.IsSound) : Datum.IsSound (.table (entryData es)) := by
  rw [entryData_eq_map]
  refine Datum.isSound_table ?_ fun e he => ?_
  · rw [List.map_map]
    exact hnodup
  · obtain ⟨f, hf, rfl⟩ := List.mem_map.mp he
    exact h f hf

theorem Item.Tidy.isSound {i : Item} (h : i.Tidy) : i.datum.IsSound := by
  induction h with
  | value hd => exact hd
  | @table origin es hnodup _ ih =>
    have hes := isSound_entryData hnodup ih
    cases origin <;> exact hes
  | @tables closed last hnodup _ ih =>
    refine Datum.isSound_list fun d hd => ?_
    have hmap : tableData closed ++ [Datum.table (entryData last)] =
        (closed ++ [last]).map fun es => .table (entryData es) := by
      rw [tableData_eq_map, List.map_append, List.map_singleton]
    rw [hmap] at hd
    obtain ⟨es, hes, rfl⟩ := List.mem_map.mp hd
    exact isSound_entryData (hnodup es hes) (ih es hes)

namespace Entries

theorem Tidy.isSound {es : Entries} (h : es.Tidy) : Datum.IsSound (.table (entryData es)) :=
  isSound_entryData h.nodup fun e he => (h.items e he).isSound

theorem Tidy.nil : Tidy [] := ⟨List.nodup_nil, List.forall_mem_nil _⟩

theorem Tidy.lookup {es : Entries} (h : es.Tidy) {k : String} {i : Item}
    (hi : es.lookup k = some i) : i.Tidy := by
  induction es with
  | nil => cases hi
  | cons e es ih =>
    obtain ⟨l, j⟩ := e
    obtain ⟨hj, hrest⟩ := List.forall_mem_cons.mp h.items
    rw [List.lookup_cons] at hi
    split at hi
    · exact Option.some.inj hi ▸ hj
    · exact ih ⟨(List.nodup_cons.mp h.nodup).2, hrest⟩ hi

theorem Tidy.set {es : Entries} (h : es.Tidy) (k : String) {i : Item} (hi : i.Tidy) :
    (es.set k i).Tidy := by
  unfold Entries.set
  split
  · have hkeys : (es.map fun e => if (e.1 == k) = true then (k, i) else e).map Prod.fst =
        es.map Prod.fst := by
      rw [List.map_map]
      refine List.map_congr_left fun e _ => ?_
      by_cases hk : e.1 = k <;> simp [hk]
    refine ⟨hkeys.symm ▸ h.nodup, fun e he => ?_⟩
    obtain ⟨f, hf, rfl⟩ := List.mem_map.mp he
    split
    · exact hi
    · exact h.items f hf
  · rename_i hnew
    have hk : k ∉ es.map Prod.fst := by
      simpa using hnew
    refine ⟨?_, List.forall_mem_append.mpr ⟨h.items, by simpa using hi⟩⟩
    rw [List.map_append, List.nodup_append]
    refine ⟨h.nodup, by simp, fun a ha b hb hab => hk ?_⟩
    rw [List.map_singleton, List.mem_singleton] at hb
    rwa [hab, hb] at ha

/-- A change of tables that keeps them tidy. -/
def Keeps (f : Entries → Option Entries) : Prop := ∀ ⦃t u⦄, t.Tidy → f t = some u → u.Tidy

theorem Keeps.update {f : Entries → Option Entries} (hf : Keeps f) (origin : Origin)
    (admits : Origin → Bool) (path : List String) : Keeps (update origin admits f path) := by
  induction path with
  | nil => exact hf
  | cons k path ih =>
    intro t u ht hu
    simp only [Entries.update] at hu
    split at hu
    · obtain ⟨inner, hinner, heq⟩ := Option.bind_eq_some_iff.mp hu
      cases heq
      exact ht.set k (Item.tidy_table.mpr (ih .nil hinner))
    · rename_i o child hchild
      split at hu
      · obtain ⟨inner, hinner, heq⟩ := Option.bind_eq_some_iff.mp hu
        cases heq
        exact ht.set k (Item.tidy_table.mpr (ih (Item.tidy_table.mp (ht.lookup hchild)) hinner))
      · cases hu
    · rename_i closed last htables
      obtain ⟨inner, hinner, heq⟩ := Option.bind_eq_some_iff.mp hu
      cases heq
      obtain ⟨hclosed, hlast⟩ := List.forall_mem_append.mp
        (Item.tidy_tables.mp (ht.lookup htables))
      refine ht.set k (Item.tidy_tables.mpr (List.forall_mem_append.mpr ⟨hclosed, ?_⟩))
      have hnew := ih (hlast last List.mem_cons_self) hinner
      simpa using hnew
    · cases hu

theorem Tidy.openTable {es : Entries} (h : es.Tidy) {left : Nat} {path : List String} {key : String}
    {root : Entries} (hroot : es.openTable left path key = some root) : root.Tidy := by
  refine Keeps.update (fun t u ht hu => ?_) .implied (fun _ => true) path h hroot
  split at hu
  · cases hu
    exact ht.set key (Item.tidy_table.mpr .nil)
  · rename_i child hchild
    cases hu
    exact ht.set key (Item.tidy_table.mpr (Item.tidy_table.mp (ht.lookup hchild)))
  · cases hu

theorem Tidy.openElement {es : Entries} (h : es.Tidy) {path : List String} {key : String}
    {root : Entries} (hroot : es.openElement path key = some root) : root.Tidy := by
  refine Keeps.update (fun t u ht hu => ?_) .implied (fun _ => true) path h hroot
  split at hu
  · cases hu
    exact ht.set key (Item.tidy_tables.mpr (by simpa using Tidy.nil))
  · rename_i closed last htables
    cases hu
    have hold := Item.tidy_tables.mp (ht.lookup htables)
    exact ht.set key (Item.tidy_tables.mpr (List.forall_mem_append.mpr ⟨hold, by simpa using Tidy.nil⟩))
  · cases hu

theorem Tidy.assign {es : Entries} (h : es.Tidy) {header path : List String} {key : String}
    {d : Datum} (hd : d.IsSound) {root : Entries}
    (hroot : es.assign header path key d = some root) : root.Tidy := by
  refine Keeps.update (Keeps.update (fun t u ht hu => ?_) .dotted (! ·.isHeader) path) .implied
    (fun _ => true) header h hroot
  split at hu
  · cases hu
  · cases hu
    exact ht.set key (.value hd)

end Entries

/-! ### Readers -/

/-- All that a reader finds has a property. -/
def Reads (one : Reader α) (p : α → Prop) : Prop := ∀ ⦃s a rest⦄, one s = .ok (a, rest) → p a

/-! ### Scalars -/

theorem integer_sound {n : Int} {stop rest left : List Char} {d : Datum}
    (h : integer n stop rest = .ok (d, left)) : d.IsSound := by
  unfold integer at h
  split at h
  · rename_i hn
    cases h
    refine .int ⟨hn.1, Int.le_trans hn.2 ?_⟩
    decide
  · cases h

theorem float_sound (x : Float) : Datum.IsSound (.float x) := by
  unfold Datum.IsSound Datum.toValue Value.ofFloat
  split
  · rename_i hx
    exact .float hx
  · exact .null

theorem decimal_sound (neg : Bool) : Reads (decimal neg) Datum.IsSound := by
  intro s d rest h
  obtain ⟨⟨ds, r₁⟩, -, h⟩ := exists_of_bind_eq_ok h
  obtain ⟨⟨frac, r₂⟩, -, h⟩ := exists_of_bind_eq_ok h
  obtain ⟨⟨exp, r₃⟩, -, h⟩ := exists_of_bind_eq_ok h
  dsimp only at h
  split at h
  · exact integer_sound h
  · split at h
    · cases h
      exact float_sound _
    · cases h

theorem based_sound (base : Nat) (isDigit : Char → Bool) (start : List Char) :
    Reads (based base isDigit start) Datum.IsSound := by
  intro s d rest h
  obtain ⟨⟨ds, r⟩, -, h⟩ := exists_of_bind_eq_ok h
  exact integer_sound h

theorem number_sound : Reads number Datum.IsSound := by
  intro s d rest h
  unfold number at h
  split at h
  · exact based_sound _ _ _ h
  · exact based_sound _ _ _ h
  · exact based_sound _ _ _ h
  · dsimp only at h
    split at h
    · cases h
      exact float_sound _
    · cases h
      exact float_sound _
    · exact decimal_sound _ h

theorem scalar_sound : Reads scalar Datum.IsSound := by
  intro s d rest h
  unfold scalar at h
  split at h
  · obtain ⟨⟨t, r⟩, -, h⟩ := exists_of_bind_eq_ok h
    cases h
    exact .str t
  · obtain ⟨⟨t, r⟩, -, h⟩ := exists_of_bind_eq_ok h
    cases h
    exact .str t
  · obtain ⟨r, -, h⟩ := exists_of_bind_eq_ok h
    cases h
    exact .bool true
  · obtain ⟨r, -, h⟩ := exists_of_bind_eq_ok h
    cases h
    exact .bool false
  · split at h
    · dsimp only at h
      split at h
      all_goals
        obtain ⟨⟨t, r⟩, -, h⟩ := exists_of_bind_eq_ok h
        cases h
        exact .str _
    · exact number_sound h

/-! ### Lists and tables -/

variable {one : Reader Datum}

theorem listItems_sound (hone : Reads one Datum.IsSound) (fuel : Nat) {acc : List Datum}
    (hacc : ∀ d ∈ acc, d.IsSound) : Reads (listItems one fuel acc) Datum.IsSound := by
  have hlist : ∀ {ds : List Datum}, (∀ d ∈ ds, d.IsSound) → Datum.IsSound (.list ds.reverse) :=
    fun hds => Datum.isSound_list fun d hd => hds d (List.mem_reverse.mp hd)
  induction fuel generalizing acc with
  | zero =>
    intro s d rest h
    cases h
  | succ fuel ih =>
    intro s d rest h
    unfold listItems at h
    split at h
    · cases h
      exact hlist hacc
    · obtain ⟨⟨d, r⟩, hd, h⟩ := exists_of_bind_eq_ok h
      have hmore : ∀ e ∈ d :: acc, e.IsSound := List.forall_mem_cons.mpr ⟨hone hd, hacc⟩
      dsimp only at h
      split at h
      · exact ih hmore h
      · cases h
        exact hlist hmore
      · cases h

theorem assignment_sound (hone : Reads one Datum.IsSound) :
    Reads (assignment one) fun a => a.value.IsSound := by
  intro s a rest h
  obtain ⟨⟨⟨path, key⟩, r₁⟩, -, h⟩ := exists_of_bind_eq_ok h
  obtain ⟨r₂, -, h⟩ := exists_of_bind_eq_ok h
  obtain ⟨⟨d, r₃⟩, hd, h⟩ := exists_of_bind_eq_ok h
  cases h
  exact hone hd

theorem assignments_sound (hone : Reads one Datum.IsSound) (fuel : Nat) :
    Reads (assignments one fuel) fun as => ∀ a ∈ as, a.value.IsSound := by
  induction fuel with
  | zero =>
    intro s as rest h
    cases h
  | succ fuel ih =>
    intro s as rest h
    unfold assignments at h
    obtain ⟨⟨a, r⟩, ha, h⟩ := exists_of_bind_eq_ok h
    have hvalue := assignment_sound hone ha
    dsimp only at h
    split at h
    · split at h
      · obtain ⟨⟨more, r⟩, hmore, h⟩ := exists_of_bind_eq_ok h
        cases h
        exact List.forall_mem_cons.mpr ⟨hvalue, ih hmore⟩
      · cases h
    · cases h
      simpa using hvalue
    · cases h

theorem foldlM_assign_tidy {as : List Assignment} (has : ∀ a ∈ as, a.value.IsSound) {es : Entries}
    (hes : es.Tidy) {root : Entries}
    (h : as.foldlM (fun es a => Entries.assign es [] a.path a.key a.value) es = some root) :
    root.Tidy := by
  induction as generalizing es with
  | nil =>
    obtain rfl := Option.some.inj h
    exact hes
  | cons a as ih =>
    obtain ⟨ha, hrest⟩ := List.forall_mem_cons.mp has
    rw [List.foldlM_cons] at h
    obtain ⟨more, hmore, h⟩ := Option.bind_eq_some_iff.mp h
    exact ih hrest (hes.assign ha hmore) h

theorem inlineTable_sound (hone : Reads one Datum.IsSound) :
    Reads (inlineTable one) Datum.IsSound := by
  intro s d rest h
  unfold inlineTable at h
  split at h
  · cases h
    exact Entries.Tidy.nil.isSound
  · obtain ⟨⟨as, r⟩, has, h⟩ := exists_of_bind_eq_ok h
    dsimp only at h
    split at h
    · rename_i es hes
      cases h
      exact (foldlM_assign_tidy (assignments_sound hone _ has) .nil hes).isSound
    · cases h

theorem value_sound (depth : Nat) : Reads (value depth) Datum.IsSound := by
  induction depth using Nat.strongRecOn with
  | ind depth ih =>
    intro s d rest h
    unfold value at h
    dsimp only at h
    split at h
    · obtain ⟨⟨e, r⟩, he, h⟩ := exists_of_bind_eq_ok h
      have hlist := listItems_sound (ih _ (Nat.lt_succ_self _)) _ (List.forall_mem_nil _) he
      cases h
      exact hlist
    · obtain ⟨⟨e, r⟩, he, h⟩ := exists_of_bind_eq_ok h
      have htable := inlineTable_sound (ih _ (Nat.lt_succ_self _)) he
      cases h
      exact htable
    · obtain ⟨⟨e, r⟩, he, h⟩ := exists_of_bind_eq_ok h
      have hscalar := scalar_sound he
      cases h
      exact hscalar

/-! ### Documents -/

theorem header_tidy {brackets : Nat} {open? : List String → String → Option Entries}
    (hopen : ∀ path key root, open? path key = some root → root.Tidy) :
    Reads (header brackets open?) fun p => p.root.Tidy := by
  intro s p rest h
  obtain ⟨⟨⟨path, key⟩, r₁⟩, -, h⟩ := exists_of_bind_eq_ok h
  obtain ⟨r₂, -, h⟩ := exists_of_bind_eq_ok h
  obtain ⟨r₃, -, h⟩ := exists_of_bind_eq_ok h
  split at h
  · rename_i root hroot
    cases h
    exact hopen path key root hroot
  · cases h

theorem step_tidy {p : Progress} (hp : p.root.Tidy) : Reads (step p) fun q => q.root.Tidy := by
  intro s q rest h
  unfold step at h
  split at h
  · exact header_tidy (fun _ _ _ => hp.openElement) h
  · exact header_tidy (fun _ _ _ => hp.openTable) h
  · obtain ⟨r, -, h⟩ := exists_of_bind_eq_ok h
    cases h
    exact hp
  · obtain ⟨r, -, h⟩ := exists_of_bind_eq_ok h
    cases h
    exact hp
  · obtain ⟨r, -, h⟩ := exists_of_bind_eq_ok h
    cases h
    exact hp
  · obtain ⟨⟨a, r₁⟩, ha, h⟩ := exists_of_bind_eq_ok h
    obtain ⟨r₂, -, h⟩ := exists_of_bind_eq_ok h
    split at h
    · rename_i root hroot
      cases h
      exact hp.assign (assignment_sound (value_sound depthLimit) ha) hroot
    · cases h

theorem steps_tidy (fuel : Nat) {p : Progress} (hp : p.root.Tidy) {s : List Char} {root : Entries}
    (h : steps fuel p s = .ok root) : root.Tidy := by
  induction fuel generalizing p s with
  | zero => cases h
  | succ fuel ih =>
    unfold steps at h
    split at h
    · cases h
      exact hp
    · obtain ⟨⟨q, r⟩, hq, h⟩ := exists_of_bind_eq_ok h
      exact ih (step_tidy hp hq) h

/-- What is read is sound. -/
theorem read_sound {source : String} {d : Datum} (h : read source = .ok d) : d.IsSound := by
  unfold read at h
  dsimp only at h
  split at h
  · rename_i root hroot
    cases h
    exact (steps_tidy _ .nil hroot).isSound
  · cases h

end Flowline.Toml
