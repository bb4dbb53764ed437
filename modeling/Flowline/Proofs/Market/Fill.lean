import Flowline.Market.Feature
import Flowline.Proofs.Data.Value

/-!
# Gaps that are filled

A gap is a cell that is null or missing. Filling the gaps of a column leaves each row as it is, but
for a gap, which takes the nearest value before or behind it, or zero. Columns are filled one after
the other: what one of them puts into its gaps depends on no other column, and a column that is
named again has no gap left.
-/
namespace Flowline

namespace Fields

/-- The second value of a key replaces the first. -/
@[simp] theorem insert_insert (fs : Fields) (key : String) (v w : Value) :
    (fs.insert key v).insert key w = fs.insert key w := by
  induction fs with
  | nil => simp [insert]
  | cons f fs ih =>
    obtain ⟨k, u⟩ := f
    by_cases hk : k = key <;> simp [insert, hk, ih]

end Fields

namespace Market

/-! ### Gaps -/

/-- The value of a cell, unless it is null or missing. -/
def known? (name : String) (row : Fields) : Option Value :=
  (row.get? name).filter fun v => !v.isNull

theorem known?_eq_none_iff {name : String} {row : Fields} :
    known? name row = none ↔ isGap name row = true := by
  unfold known? isGap field
  cases hget : row.get? name with
  | none => simp [Value.isNull]
  | some v => simp

theorem known?_isSome {name : String} {row : Fields} :
    (known? name row).isSome = !isGap name row := by
  rw [Bool.eq_iff_iff, Option.isSome_iff_ne_none, Bool.not_eq_true', ne_eq, known?_eq_none_iff,
    Bool.not_eq_true]

theorem known?_eq_some {name : String} {row : Fields} {v : Value} (h : known? name row = some v) :
    row.get? name = some v ∧ field row name = v := by
  obtain ⟨hget, -⟩ := Option.filter_eq_some_iff.mp h
  exact ⟨hget, by rw [field, hget, Option.getD_some]⟩

/-! ### Neighbours -/

/-- The nearest value before a place. -/
def before? (cells : List (Option Value)) (i : Nat) : Option Value :=
  (cells.take i).reverse.findSome? id

/-- The nearest value behind a place. -/
def behind? (cells : List (Option Value)) (i : Nat) : Option Value :=
  (cells.drop (i + 1)).findSome? id

theorem before?_cons (cell : Option Value) (cells : List (Option Value)) (i : Nat) :
    before? (cell :: cells) (i + 1) = (before? cells i).or cell := by
  simp [before?, List.findSome?_append]

/-- Read from the end, what is behind is before. -/
theorem before?_reverse (cells : List (Option Value)) {i : Nat} (hi : i < cells.length) :
    before? cells.reverse (cells.length - 1 - i) = behind? cells i := by
  have hdrop : cells.length - (cells.length - 1 - i) = i + 1 := by omega
  rw [before?, List.take_reverse, List.reverse_reverse, hdrop, behind?]

/-- What a gap takes: the nearest value of its column on one side, or zero. -/
def filler (method : FillMethod) (cells : List (Option Value)) (i : Nat) : Value :=
  match method with
  | .forward => (before? cells i).getD (.float 0.0)
  | .backward => (behind? cells i).getD (.float 0.0)
  | _ => .float 0.0

theorem findSome?_known {name : String} {rows : List Fields} {v : Value}
    (h : (rows.map (known? name)).findSome? id = some v) : v.isNull = false := by
  obtain ⟨cell, hcell, hv⟩ := List.exists_of_findSome?_eq_some h
  obtain ⟨row, -, rfl⟩ := List.mem_map.mp hcell
  have hnull := (Option.filter_eq_some_iff.mp hv).2
  simpa using hnull

theorem before?_known {name : String} {rows : List Fields} {i : Nat} {v : Value}
    (h : before? (rows.map (known? name)) i = some v) : v.isNull = false := by
  rw [before?, ← List.map_take, ← List.map_reverse] at h
  exact findSome?_known h

theorem behind?_known {name : String} {rows : List Fields} {i : Nat} {v : Value}
    (h : behind? (rows.map (known? name)) i = some v) : v.isNull = false := by
  rw [behind?, ← List.map_drop] at h
  exact findSome?_known h

/-- What a gap takes is no gap. -/
theorem filler_known (method : FillMethod) (name : String) (rows : List Fields) (i : Nat) :
    (filler method (rows.map (known? name)) i).isNull = false := by
  unfold filler
  cases method with
  | forward =>
    cases hv : before? (rows.map (known? name)) i with
    | none => rfl
    | some v => exact before?_known hv
  | backward =>
    cases hv : behind? (rows.map (known? name)) i with
    | none => rfl
    | some v => exact behind?_known hv
  | _ => rfl

/-! ### One column -/

variable {name : String}

/-- The row with a value in place of its gap. -/
def patched (name : String) (v : Value) (row : Fields) : Fields :=
  if isGap name row then row.insert name v else row

/-- A gap stays as long as nothing but null is put into it. -/
theorem isGap_insert (name : String) (row : Fields) (v : Value) :
    isGap name (row.insert name v) = v.isNull := by
  rw [isGap, field, Fields.get?_insert_self, Option.getD_some]

/-- A gap without a neighbour is null after a first pass, and is filled in a second. -/
theorem patched_twice {nearest : Option Value} (h : ∀ v, nearest = some v → v.isNull = false)
    (w : Value) (row : Fields) :
    patched name w (patched name (nearest.getD .null) row) = patched name (nearest.getD w) row := by
  unfold patched
  by_cases hgap : isGap name row = true
  · cases nearest with
    | none => simp [hgap, isGap_insert, Value.isNull]
    | some v => simp [hgap, isGap_insert, h v rfl]
  · simp [hgap]

theorem carry_cons (last : Value) (row : Fields) (rest : List Fields) :
    carry name last (row :: rest) =
      patched name last row :: carry name ((known? name row).getD last) rest := by
  rw [carry, patched]
  by_cases hgap : isGap name row = true
  · rw [if_pos hgap, if_pos hgap, known?_eq_none_iff.mpr hgap, Option.getD_none]
  · obtain ⟨v, hv⟩ := Option.ne_none_iff_exists'.mp (mt known?_eq_none_iff.mp hgap)
    rw [if_neg hgap, if_neg hgap, hv, (known?_eq_some hv).2, Option.getD_some]

/-- The last value so far is the nearest one before. -/
theorem carry_getElem? (last : Value) (rows : List Fields) (i : Nat) :
    (carry name last rows)[i]? =
      rows[i]?.map (patched name ((before? (rows.map (known? name)) i).getD last)) := by
  induction rows generalizing last i with
  | nil => rfl
  | cons row rest ih =>
    rw [carry_cons]
    cases i with
    | zero => rfl
    | succ i =>
      rw [List.getElem?_cons_succ, List.getElem?_cons_succ, ih, List.map_cons, before?_cons]
      cases before? (rest.map (known? name)) i <;> rfl

theorem length_carry (last : Value) (rows : List Fields) :
    (carry name last rows).length = rows.length := by
  induction rows generalizing last with
  | nil => rfl
  | cons row rest ih => rw [carry_cons, List.length_cons, ih, List.length_cons]

/-- Read from the end, the last value so far is the nearest one behind. -/
theorem carry_reverse_getElem? (rows : List Fields) (i : Nat) :
    (carry name .null rows.reverse).reverse[i]? =
      rows[i]?.map (patched name ((behind? (rows.map (known? name)) i).getD .null)) := by
  have hlen : (carry name .null rows.reverse).length = rows.length := by
    rw [length_carry, List.length_reverse]
  by_cases hi : i < rows.length
  · have hback : rows.length - 1 - (rows.length - 1 - i) = i := by omega
    have hbefore := before?_reverse (rows.map (known? name)) (i := i) (by simpa using hi)
    rw [List.length_map] at hbefore
    rw [List.getElem?_reverse (by omega), hlen, carry_getElem?,
      List.getElem?_reverse (by omega), hback, List.map_reverse, hbefore]
  · rw [List.getElem?_eq_none (by rw [List.length_reverse]; omega),
      List.getElem?_eq_none (by omega), Option.map_none]

theorem fillZeros_getElem? (rows : List Fields) (i : Nat) :
    (fillZeros name rows)[i]? = rows[i]?.map (patched name (.float 0.0)) := List.getElem?_map

theorem length_fillColumn (method : FillMethod) (rows : List Fields) :
    (fillColumn method rows name).length = rows.length := by
  cases method <;> simp [fillColumn, fillZeros, length_carry]

/-- Each gap of the column takes what is next to it. -/
theorem fillColumn_getElem? (method : FillMethod) (rows : List Fields) (i : Nat) :
    (fillColumn method rows name)[i]? =
      rows[i]?.map (patched name (filler method (rows.map (known? name)) i)) := by
  unfold fillColumn
  rw [fillZeros_getElem?]
  cases method with
  | forward =>
    rw [carry_getElem?, Option.map_map]
    exact congrArg (rows[i]?.map ·) (funext (patched_twice (fun _ => before?_known) _))
  | backward =>
    rw [carry_reverse_getElem?, Option.map_map]
    exact congrArg (rows[i]?.map ·) (funext (patched_twice (fun _ => behind?_known) _))
  | _ => rfl

theorem get?_patched_self (v : Value) (row : Fields) :
    (patched name v row).get? name = some ((known? name row).getD v) := by
  unfold patched
  by_cases hgap : isGap name row = true
  · rw [if_pos hgap, Fields.get?_insert_self, known?_eq_none_iff.mpr hgap, Option.getD_none]
  · obtain ⟨w, hw⟩ := Option.ne_none_iff_exists'.mp (mt known?_eq_none_iff.mp hgap)
    rw [if_neg hgap, hw, (known?_eq_some hw).1, Option.getD_some]

theorem get?_patched_of_ne {other : String} (h : other ≠ name) (v : Value) (row : Fields) :
    (patched name v row).get? other = row.get? other := by
  unfold patched
  split
  · exact Fields.get?_insert_of_ne h v
  · rfl

theorem known?_patched_self {v : Value} (hv : v.isNull = false) (row : Fields) :
    known? name (patched name v row) = some ((known? name row).getD v) := by
  rw [known?, get?_patched_self, Option.filter_some, if_pos]
  cases hknown : known? name row with
  | none => simp [hv]
  | some w => exact (Option.filter_eq_some_iff.mp hknown).2

theorem known?_patched_of_ne {other : String} (h : other ≠ name) (v : Value) (row : Fields) :
    known? other (patched name v row) = known? other row := by
  rw [known?, get?_patched_of_ne h, known?]

/-- The other columns stay as they are. -/
theorem map_known?_fillColumn {other : String} (h : other ≠ name) (method : FillMethod)
    (rows : List Fields) :
    (fillColumn method rows name).map (known? other) = rows.map (known? other) := by
  refine List.ext_getElem? fun i => ?_
  rw [List.getElem?_map, fillColumn_getElem?, List.getElem?_map, Option.map_map]
  exact congrArg (rows[i]?.map ·) (funext (known?_patched_of_ne h _))

/-! ### All columns -/

/-- Rows whose gaps under some names are filled. All cells are as they were but the named ones, and
of these the ones that were gaps: they take what is next to them in the rows as they were. -/
structure Filled (method : FillMethod) (names : List String) (rows out : List Fields) : Prop where
  length : out.length = rows.length
  kept : ∀ (i : Nat) (row row' : Fields), rows[i]? = some row → out[i]? = some row' →
    ∀ name, name ∉ names → row'.get? name = row.get? name
  filled : ∀ (i : Nat) (row row' : Fields), rows[i]? = some row → out[i]? = some row' →
    ∀ name ∈ names, row'.get? name =
      some ((known? name row).getD (filler method (rows.map (known? name)) i))

theorem filled_foldl (method : FillMethod) (names : List String) (rows : List Fields) :
    Filled method names rows (names.foldl (fillColumn method) rows) := by
  induction names generalizing rows with
  | nil =>
    refine ⟨rfl, fun i row row' hrow hrow' name _ => ?_, fun _ _ _ _ _ _ hname => nomatch hname⟩
    rw [Option.some.inj (hrow.symm.trans hrow')]
  | cons name names ih =>
    obtain ⟨hlength, hkept, hfilled⟩ := ih (fillColumn method rows name)
    have hstep : ∀ {i row}, rows[i]? = some row → (fillColumn method rows name)[i]? =
        some (patched name (filler method (rows.map (known? name)) i) row) := by
      intro i row hrow
      rw [fillColumn_getElem?, hrow, Option.map_some]
    refine ⟨?_, fun i row row' hrow hrow' other hother => ?_,
      fun i row row' hrow hrow' other hother => ?_⟩
    · rw [List.foldl_cons, hlength, length_fillColumn]
    · rw [List.mem_cons, not_or] at hother
      rw [hkept i _ row' (hstep hrow) hrow' other hother.2, get?_patched_of_ne hother.1]
    · by_cases hagain : other ∈ names
      · rw [hfilled i _ row' (hstep hrow) hrow' other hagain]
        by_cases hname : other = name
        · subst hname
          rw [known?_patched_self (filler_known method other rows i), Option.getD_some]
        · rw [known?_patched_of_ne hname, map_known?_fillColumn hname]
      · obtain rfl : other = name := (List.mem_cons.mp hother).resolve_right hagain
        rw [hkept i _ row' (hstep hrow) hrow' other hagain, get?_patched_self]

/-- A named cell keeps its value or takes what is no gap. -/
theorem Filled.isGap_eq_false {method : FillMethod} {names : List String} {rows out : List Fields}
    (h : Filled method names rows out) : ∀ row ∈ out, ∀ name ∈ names, isGap name row = false := by
  intro row' hrow' name hname
  obtain ⟨i, hi, rfl⟩ := List.mem_iff_getElem.mp hrow'
  have hlt : i < rows.length := h.length ▸ hi
  have hcell := h.filled i rows[i] out[i] (List.getElem?_eq_getElem hlt) (List.getElem?_eq_getElem hi)
    name hname
  rw [isGap, field, hcell, Option.getD_some]
  cases hknown : known? name rows[i] with
  | none => exact filler_known method name rows i
  | some v => simpa using (Option.filter_eq_some_iff.mp hknown).2

theorem ofValue_ne_drop {given : Value} (h : given ≠ .str "drop") :
    FillMethod.ofValue given ≠ .drop := by
  unfold FillMethod.ofValue
  split
  · exact absurd rfl h
  all_goals nofun

theorem fill_eq_foldl {method : FillMethod} (h : method ≠ .drop) (names : List String)
    (rows : List Fields) : fill method names rows = names.foldl (fillColumn method) rows := by
  cases method with
  | drop => exact absurd rfl h
  | _ => rfl

/-- Rows with a gap are left out, or all gaps are filled. -/
theorem fill_fills (given : Value) (names : List String) (rows : List Fields) :
    let out := fill (.ofValue given) names rows
    (given = .str "drop" →
      out = rows.filter fun row => names.all fun name => (known? name row).isSome) ∧
    (given ≠ .str "drop" → Filled (.ofValue given) names rows out) ∧
    ∀ row ∈ out, ∀ name ∈ names, isGap name row = false := by
  intro out
  by_cases hdrop : given = .str "drop"
  · have hout : out = rows.filter fun row => !names.any fun name => isGap name row := by
      subst hdrop
      rfl
    refine ⟨fun _ => ?_, fun hne => absurd hdrop hne, fun row hrow name hname => ?_⟩
    · rw [hout]
      refine List.filter_congr fun row _ => ?_
      rw [List.not_any_eq_all_not]
      exact congrArg (names.all ·) (funext fun name => known?_isSome.symm)
    · rw [hout, List.mem_filter, List.not_any_eq_all_not, List.all_eq_true] at hrow
      simpa using hrow.2 name hname
  · have hfilled : Filled (.ofValue given) names rows out := by
      have hfold := filled_foldl (.ofValue given) names rows
      rwa [← fill_eq_foldl (ofValue_ne_drop hdrop)] at hfold
    exact ⟨fun heq => absurd heq hdrop, fun _ => hfilled, hfilled.isGap_eq_false⟩

end Market
end Flowline
