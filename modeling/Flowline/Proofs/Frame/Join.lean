import Mathlib.Data.List.Forall2
import Mathlib.Data.List.Induction
import Flowline.Frame.Basic
import Flowline.Proofs.Data.Record
import Flowline.Proofs.Document.Distinct

/-!
# Joined frames

A join keeps the rows of the first frame that have a partner in every other frame, in their order.
Each of them keeps its cells, so it has the same partners all along, and after them come those of
its partners' cells whose columns are new. A frame without the column is refused wherever it stands
but in the first place: there it leaves no row.
-/
namespace Flowline.Frame

variable {key : String} {row other : Fields} {first f : Frame} {rest : List Frame}

/-! ### Completing a row -/

theorem complete_append (row other more : Fields) :
    complete row (other ++ more) = complete (complete row other) more := List.foldl_append

theorem complete_singleton (row : Fields) (k : String) (v : Value) :
    complete row [(k, v)] = if Fields.has row k then row else row ++ [(k, v)] := rfl

/-- The cells of the row come first. -/
theorem get?_complete (row other : Fields) (c : String) :
    (complete row other).get? c = (row.get? c).or (other.get? c) := by
  induction other using List.reverseRecOn with
  | nil => exact (Option.or_none).symm
  | append_singleton other f ih =>
    obtain ⟨k, v⟩ := f
    rw [complete_append, complete_singleton, Fields.get?_append, ← Option.or_assoc, ← ih]
    split
    · rename_i hhas
      by_cases hk : k = c
      · obtain ⟨w, hw⟩ := Fields.exists_get?_of_has hhas
        rw [← hk, hw, Option.some_or]
      · simp [Fields.get?, hk]
    · rw [Fields.get?_append]

theorem prefix_complete (row other : Fields) : row <+: complete row other := by
  induction other using List.reverseRecOn with
  | nil => exact List.prefix_refl row
  | append_singleton other f ih =>
    rw [complete_append, complete_singleton]
    split
    · exact ih
    · exact ih.trans (List.prefix_append _ _)

theorem keys_complete (row other : Fields) : (complete row other).keys =
    row.keys ++ distinct (other.keys.filter fun k => k ∉ row.keys) := by
  induction other using List.reverseRecOn with
  | nil => exact (List.append_nil _).symm
  | append_singleton other f ih =>
    obtain ⟨k, v⟩ := f
    rw [complete_append, complete_singleton, Fields.keys_append, List.filter_append]
    have hhas : Fields.has (complete row other) k = true ↔
        k ∈ row.keys ∨ k ∈ Fields.keys other := by
      rw [Fields.has_iff, ih]
      by_cases hrow : k ∈ row.keys <;> simp [hrow]
    by_cases hrow : k ∈ row.keys
    · simp [hhas, hrow, ih]
    · by_cases hother : k ∈ Fields.keys other
      · simp [hhas, hrow, hother, ih, distinct_concat]
      · simp [hhas, hrow, hother, ih, distinct_concat]

/-! ### Partners -/

/-- Both rows have the column, with the same value in it. -/
def sameCell (key : String) (row other : Fields) : Bool :=
  match Fields.get? row key, Fields.get? other key with
  | some v, some w => v.same w
  | _, _ => false

/-- The first row of the frame with the same value in the column. -/
def partner? (key : String) (row : Fields) (f : Frame) : Option Fields :=
  f.rows.find? (sameCell key row)

/-- There is a row with the same value in every one of the frames. -/
def hasPartners (key : String) (rest : List Frame) (row : Fields) : Bool :=
  rest.all fun f => f.rows.any (sameCell key row)

def partners (key : String) (rest : List Frame) (row : Fields) : List Fields :=
  rest.filterMap (partner? key row)

theorem joinRow_eq (key : String) (f : Frame) (row : Fields) :
    joinRow key f.rows row = (partner? key row f).map (complete row) := by
  unfold joinRow partner?
  cases hv : Fields.get? row key with
  | none =>
    have hnone : sameCell key row = fun _ => false := by
      funext other
      simp [sameCell, hv]
    rw [hnone, List.find?_eq_none.mpr (by simp)]
    rfl
  | some v =>
    have hsome : sameCell key row = fun other => (Fields.get? other key).any (v.same ·) := by
      funext other
      cases hw : Fields.get? other key <;> simp [sameCell, hv, hw]
    rw [hsome]
    cases h : f.rows.find? fun other => (Fields.get? other key).any (v.same ·) <;> simp [h]

/-- A row that has the column keeps it, and with it its partners. -/
theorem sameCell_complete (h : row.get? key ≠ none) (other : Fields) :
    sameCell key (complete row other) = sameCell key row := by
  obtain ⟨v, hv⟩ := Option.ne_none_iff_exists'.mp h
  funext more
  simp [sameCell, get?_complete, hv]

theorem partner?_get? {p : Fields} (h : partner? key row f = some p) : row.get? key ≠ none := by
  intro hnone
  have hcell := List.find?_some h
  simp [sameCell, hnone] at hcell

/-! ### One row through all frames -/

/-- The row after it has been joined with each of the frames in turn. -/
def joinRows (key : String) (rest : List Frame) (row : Fields) : Option Fields :=
  rest.foldlM (fun row f => joinRow key f.rows row) row

theorem joinRows_eq (key : String) (rest : List Frame) (row : Fields) :
    joinRows key rest row =
      if hasPartners key rest row then some (complete row (partners key rest row).flatten)
      else none := by
  induction rest generalizing row with
  | nil => rfl
  | cons f rest ih =>
    change (joinRow key f.rows row).bind (joinRows key rest) = _
    rw [joinRow_eq]
    have hany : (partner? key row f).isSome = f.rows.any (sameCell key row) := by
      rw [Bool.eq_iff_iff, partner?, List.find?_isSome, List.any_eq_true]
    cases hp : partner? key row f with
    | none =>
      have hnone : f.rows.any (sameCell key row) = false := by rw [← hany, hp]; rfl
      simp [hasPartners, hnone]
    | some p =>
      have hsome : f.rows.any (sameCell key row) = true := by rw [← hany, hp]; rfl
      have hsame := sameCell_complete (partner?_get? hp) p
      have hhas : hasPartners key rest (complete row p) = hasPartners key (f :: rest) row := by
        simp [hasPartners, hsame, hsome]
      have hpartners : partners key (f :: rest) row = p :: partners key rest (complete row p) := by
        have hpartner : partner? key (complete row p) = partner? key row := by
          funext g
          rw [partner?, partner?, hsame]
        rw [partners, partners, List.filterMap_cons_some hp, hpartner]
      rw [Option.map_some, Option.bind_some, ih, hhas, hpartners, List.flatten_cons,
        complete_append]

/-- What becomes of a row that has a partner in each of the frames. -/
structure JoinedRow (key : String) (rest : List Frame) (row out : Fields) : Prop where
  kept : row <+: out
  /-- A cell comes from the row, or else from its partners in turn. -/
  cells : ∀ c, out.get? c = (row :: partners key rest row).findSome? (Fields.get? · c)
  columns : out.keys = row.keys ++
    distinct (((partners key rest row).flatMap Fields.keys).filter fun k => k ∉ row.keys)

theorem get?_flatten (rows : List Fields) (c : String) :
    Fields.get? rows.flatten c = rows.findSome? (Fields.get? · c) := by
  induction rows with
  | nil => rfl
  | cons row rows ih =>
    rw [List.flatten_cons, Fields.get?_append, ih, List.findSome?_cons]
    cases Fields.get? row c <;> rfl

theorem joinedRow_complete (key : String) (rest : List Frame) (row : Fields) :
    JoinedRow key rest row (complete row (partners key rest row).flatten) := by
  refine ⟨prefix_complete _ _, fun c => ?_, ?_⟩
  · rw [get?_complete, get?_flatten, List.findSome?_cons]
    cases Fields.get? row c <;> rfl
  · rw [keys_complete, Fields.keys, Fields.keys, List.map_flatten]
    rfl

/-! ### All rows -/

theorem filterMap_joinRows (key : String) (rest : List Frame) (rows : List Fields) :
    List.Forall₂ (JoinedRow key rest) (rows.filter (hasPartners key rest))
      (rows.filterMap (joinRows key rest)) := by
  induction rows with
  | nil => exact .nil
  | cons row rows ih =>
    rw [List.filterMap_cons, joinRows_eq]
    cases h : hasPartners key rest row with
    | true =>
      rw [List.filter_cons_of_pos h]
      exact .cons (joinedRow_complete key rest row) ih
    | false =>
      rw [List.filter_cons_of_neg (by simp [h])]
      exact ih

/-- The complaint about a frame without the column. -/
def unkeyed (key : String) : NodeError := .input s!"all inputs must have a '{key}' column"

theorem join_cons (h : f.hasColumn key = true) (first : Frame) (rest : List Frame) :
    join key (first :: f :: rest) =
      join key ({ first with rows := first.rows.filterMap (joinRow key f.rows) } :: rest) := by
  simp only [join, List.foldlM_cons, h, if_true]
  rfl

theorem join_unkeyed (h : f.hasColumn key = false) (first : Frame) (rest : List Frame) :
    join key (first :: f :: rest) = .error (unkeyed key) := by
  simp only [join, List.foldlM_cons, h, Bool.false_eq_true, if_false]
  rfl

theorem join_keyed (h : ∀ f ∈ rest, f.hasColumn key = true) (first : Frame) :
    join key (first :: rest) =
      .ok { first with rows := first.rows.filterMap (joinRows key rest) } := by
  induction rest generalizing first with
  | nil =>
    have hrows : first.rows.filterMap (joinRows key []) = first.rows := List.filterMap_some
    rw [hrows]
    rfl
  | cons f rest ih =>
    rw [List.forall_mem_cons] at h
    rw [join_cons h.1, ih h.2, List.filterMap_filterMap]
    rfl

/-- A frame as a join makes it. -/
structure Joined (key : String) (first : Frame) (rest : List Frame) (out : Frame) : Prop where
  shape : out.shape = first.shape
  metadata : out.metadata = first.metadata
  rows : List.Forall₂ (JoinedRow key rest) (first.rows.filter (hasPartners key rest)) out.rows

theorem exists_joined (h : ∀ f ∈ rest, f.hasColumn key = true) (first : Frame) :
    ∃ out, join key (first :: rest) = .ok out ∧ Joined key first rest out :=
  ⟨_, join_keyed h first, rfl, rfl, filterMap_joinRows key rest first.rows⟩

/-- A single frame is left as it is, and frames behind it that have the column are joined to it. -/
theorem join_joins (first : Frame) (h : ∀ f ∈ rest, f.hasColumn key = true) :
    (∀ f, join key [f] = .ok f) ∧
      ∃ out, join key (first :: rest) = .ok out ∧ Joined key first rest out :=
  ⟨fun _ => rfl, exists_joined h first⟩

/-- Prices by day; the last row has no day. -/
def dailyPrices : Frame :=
  { rows := [[("day", .int 1), ("close", .int 10)], [("day", .int 2), ("close", .int 20)],
      [("close", .int 30)]] }

/-- Averages by day, two of them for one day. -/
def dailyAverages : Frame :=
  { rows := [[("day", .int 2), ("close", .null), ("SMA_2", .int 15)],
      [("day", .int 2), ("SMA_2", .int 16)]] }

def dailyNotes : Frame :=
  { rows := [[("day", .int 1), ("note", .str "open")],
      [("note", .str "rise"), ("SMA_2", .null), ("day", .int 2)]] }

theorem dailyPrices_joined :
    (∀ f ∈ [dailyAverages, dailyNotes], f.hasColumn "day" = true) ∧
      ∃ out, join "day" [dailyPrices, dailyAverages, dailyNotes] = .ok out ∧
        Joined "day" dailyPrices [dailyAverages, dailyNotes] out ∧
        out.rows = [[("day", .int 2), ("close", .int 20), ("SMA_2", .int 15),
          ("note", .str "rise")]] := by
  have hcolumn : ∀ f ∈ [dailyAverages, dailyNotes], f.hasColumn "day" = true := by decide
  obtain ⟨-, out, hout, hjoined⟩ := join_joins dailyPrices hcolumn
  have hrows : join "day" [dailyPrices, dailyAverages, dailyNotes] =
      .ok { rows := [[("day", .int 2), ("close", .int 20), ("SMA_2", .int 15),
        ("note", .str "rise")]] } := rfl
  refine ⟨hcolumn, out, hout, hjoined, ?_⟩
  rw [Except.ok.inj (hout.symm.trans hrows)]

/-! ### Frames without the column -/

theorem join_eq_error_iff {e : NodeError} : join key (first :: rest) = .error e ↔
    e = unkeyed key ∧ ∃ f ∈ rest, f.hasColumn key = false := by
  induction rest generalizing first with
  | nil =>
    refine iff_of_false (fun h => ?_) (by simp)
    cases h
  | cons f rest ih =>
    cases hf : f.hasColumn key with
    | true => simp [join_cons hf, ih, hf]
    | false =>
      have hsome : ∃ g ∈ f :: rest, g.hasColumn key = false := ⟨f, List.mem_cons_self, hf⟩
      rw [join_unkeyed hf, Except.error.injEq, eq_comm, and_iff_left hsome]

/-- What was joined is joined as described. -/
theorem joined_of_ok {out : Frame} (h : join key (first :: rest) = .ok out) :
    Joined key first rest out := by
  have hcolumn : ∀ f ∈ rest, f.hasColumn key = true := fun f hf => by
    by_contra hnot
    have herror : join key (first :: rest) = .error (unkeyed key) :=
      join_eq_error_iff.mpr ⟨rfl, f, hf, by simpa using hnot⟩
    cases h.symm.trans herror
  obtain ⟨_, hout, hjoined⟩ := exists_joined hcolumn first
  obtain rfl := Except.ok.inj (h.symm.trans hout)
  exact hjoined

/-- The first frame alone is without the column. -/
def Overlooked (key : String) (first : Frame) (rest : List Frame) : Prop :=
  first.hasColumn key = false ∧ ∀ f ∈ rest, f.hasColumn key = true

theorem Overlooked.joined (h : Overlooked key first rest) (hmore : rest ≠ []) :
    join key (first :: rest) = .ok { first with rows := [] } := by
  obtain ⟨f, rest, rfl⟩ := List.exists_cons_of_ne_nil hmore
  have hnone : ∀ row ∈ first.rows, joinRows key (f :: rest) row = none := fun row hrow => by
    have hkey : row.get? key = none := by
      refine Fields.get?_eq_none fun hkey => ?_
      have hhas : first.hasColumn key = true :=
        List.any_eq_true.mpr ⟨row, hrow, Fields.has_iff.mpr hkey⟩
      exact Bool.false_ne_true (h.1.symm.trans hhas)
    have hcell : sameCell key row = fun _ => false := by
      funext other
      simp [sameCell, hkey]
    simp [joinRows_eq, hasPartners, hcell]
  rw [join_keyed h.2, List.filterMap_eq_nil_iff.mpr hnone]

/-- Frames of which one is without the column are refused exactly unless it is the first one alone,
and then nothing is left of it but its description. -/
theorem join_refuses_unless_overlooked (hmore : rest ≠ [])
    (hmissing : ∃ f ∈ first :: rest, f.hasColumn key = false) :
    (join key (first :: rest) = .error (unkeyed key) ↔ ¬ Overlooked key first rest) ∧
      (Overlooked key first rest → join key (first :: rest) = .ok { first with rows := [] }) := by
  refine ⟨?_, fun h => h.joined hmore⟩
  rw [join_eq_error_iff, and_iff_right rfl]
  constructor
  · rintro ⟨f, hf, hcolumn⟩ hover
    exact Bool.false_ne_true (hcolumn.symm.trans (hover.2 f hf))
  · intro hnot
    by_contra hall
    have hrest : ∀ f ∈ rest, f.hasColumn key = true := by simpa using hall
    obtain ⟨f, hf, hcolumn⟩ := hmissing
    obtain rfl | hf := List.mem_cons.mp hf
    · exact hnot ⟨hcolumn, hrest⟩
    · exact Bool.false_ne_true (hcolumn.symm.trans (hrest f hf))

/-- Prices without days. -/
def undatedPrices : Frame := { rows := [[("close", .int 10)], [("close", .int 20)]] }

/-- A frame without days is refused behind one that has them, though the first one has none. -/
theorem undatedPrices_refused :
    [dailyAverages, undatedPrices] ≠ [] ∧
      (∃ f ∈ [undatedPrices, dailyAverages, undatedPrices], f.hasColumn "day" = false) ∧
      ¬ Overlooked "day" undatedPrices [dailyAverages, undatedPrices] ∧
      join "day" [undatedPrices, dailyAverages, undatedPrices] = .error (unkeyed "day") := by
  have hmore : [dailyAverages, undatedPrices] ≠ [] := List.cons_ne_nil _ _
  have hmissing : ∃ f ∈ [undatedPrices, dailyAverages, undatedPrices],
      f.hasColumn "day" = false := ⟨undatedPrices, List.mem_cons_self, by decide⟩
  have hnot : ¬ Overlooked "day" undatedPrices [dailyAverages, undatedPrices] := fun hover =>
    absurd (hover.2 undatedPrices (by simp)) (by decide)
  exact ⟨hmore, hmissing, hnot, (join_refuses_unless_overlooked hmore hmissing).1.mpr hnot⟩

/-- If the first frame alone has no days, the join is empty. -/
theorem undatedPrices_joined :
    (∃ f ∈ [undatedPrices, dailyAverages], f.hasColumn "day" = false) ∧
      join "day" [undatedPrices, dailyAverages] = .ok { rows := [] } ∧
      join "day" [undatedPrices, dailyAverages] ≠ .error (unkeyed "day") :=
  ⟨⟨undatedPrices, List.mem_cons_self, by decide⟩, rfl, nofun⟩

end Flowline.Frame
