import Flowline.Market.Loader
import Flowline.Proofs.Data.Sorted
import Flowline.Proofs.Data.Value
import Flowline.Proofs.Document.Distinct
import Mathlib.Data.List.Induction

/-!
# Cells under their headers

A record becomes a mapping from headers to cells, which has one entry for headers that are repeated,
and its cells are then named in order, with one name for every header. So a column has a cell of a
header of its name exactly if the header at its place, counted without repetitions, has that name:
always when no header is repeated up to the last one of the name.
-/
namespace Flowline

namespace Fields

/-! ### Fields from a list -/

theorem ofList_concat (fs : List (String × Value)) (f : String × Value) :
    ofList (fs ++ [f]) = (ofList fs).insert f.1 f.2 := by
  simp [ofList]

/-- Keys keep the order in which they come first. -/
theorem keys_ofList (fs : List (String × Value)) :
    (ofList fs).keys = distinct (fs.map (·.1)) := by
  induction fs using List.reverseRecOn with
  | nil => rfl
  | append_singleton fs f ih =>
    rw [ofList_concat, keys_insert, ih, List.map_append, List.map_singleton, distinct_concat]
    simp only [mem_distinct]

/-- The last value of a key counts. -/
theorem get?_ofList (fs : List (String × Value)) (key : String) :
    (ofList fs).get? key = fs.reverse.lookup key := by
  induction fs using List.reverseRecOn with
  | nil => rfl
  | append_singleton fs f ih =>
    rw [ofList_concat, get?_insert, ih, List.reverse_append, List.reverse_singleton,
      List.singleton_append, List.lookup_cons]
    by_cases hkey : key = f.1
    · simp [hkey]
    · simp [hkey, beq_eq_false_iff_ne.mpr hkey]

theorem values_eq {fs : Fields} (h : fs.keys.Nodup) :
    fs.map (·.2) = fs.keys.map fun key => (fs.get? key).getD .null := by
  induction fs with
  | nil => rfl
  | cons f fs ih =>
    obtain ⟨key, v⟩ := f
    obtain ⟨hkey, hrest⟩ := List.nodup_cons.mp h
    rw [List.map_cons, keys_cons, List.map_cons, ih hrest]
    refine congrArg₂ List.cons (by simp [get?]) (List.map_congr_left fun k hk => ?_)
    have hne : key ≠ k := fun heq => hkey (heq ▸ hk)
    simp [get?, hne]

end Fields

theorem lookup_map {α β : Type} (f : α → β) (fs : List (String × α)) (key : String) :
    (fs.map (Prod.map id f)).lookup key = (fs.lookup key).map f := by
  induction fs with
  | nil => rfl
  | cons p fs ih =>
    rw [List.map_cons, List.lookup_cons, List.lookup_cons, ih]
    simp only [Prod.map_fst, id_eq]
    cases key == p.1 <;> rfl

/-- A list without repetitions stays in front. -/
theorem distinct_append {α : Type} [DecidableEq α] {l : List α} (h : l.Nodup) (m : List α) :
    ∃ rest, distinct (l ++ m) = l ++ rest := by
  induction m using List.reverseRecOn with
  | nil => exact ⟨[], by simpa using distinct_eq_self h⟩
  | append_singleton m a ih =>
    obtain ⟨rest, hrest⟩ := ih
    rw [← List.append_assoc, distinct_concat]
    split
    · exact ⟨rest, hrest⟩
    · exact ⟨rest ++ [a], by rw [hrest, List.append_assoc]⟩

namespace Market.Loader

variable {headers record : List String} {column name : String}

/-- The header whose cells rows have under a column. The names of all headers are given to the
headers without their repetitions, in order, and the last of equal names counts. -/
def source? (headers : List String) (column : String) : Option String :=
  ((headers.map columnName).zip (distinct headers)).reverse.lookup column

/-- The cells of the column come from a header of its name. -/
def InPlace (headers : List String) (column : String) : Prop :=
  (source? headers column).map columnName = some column

instance : Decidable (InPlace headers column) := inferInstanceAs (Decidable (_ = _))

/-- The text of a field of the record, which stands under a header of the given name. -/
def StandsUnder (headers record : List String) (name text : String) : Prop :=
  ∃ header, (header, text) ∈ headers.zip record ∧ columnName header = name

/-! ### Rows -/

/-- The last cell under a header. -/
def cellUnder (headers record : List String) (header : String) : String :=
  ((headers.zip record).reverse.lookup header).getD ""

theorem cellUnder_mem (hlen : record.length = headers.length) {header : String}
    (h : header ∈ headers) : (header, cellUnder headers record header) ∈ headers.zip record := by
  have hmap : (headers.zip record).map (·.1) = headers := List.map_fst_zip hlen.ge
  obtain ⟨p, hp, hpheader⟩ := List.mem_map.mp (hmap.symm ▸ h)
  have hsome : ((headers.zip record).reverse.lookup header).isSome := List.lookup_isSome_iff.mpr
    ⟨p, List.mem_reverse.mpr hp, by simp [hpheader]⟩
  obtain ⟨text, htext⟩ := Option.isSome_iff_exists.mp hsome
  rw [cellUnder, htext, Option.getD_some]
  exact List.mem_reverse.mp (mem_of_lookup htext)

/-- The mapping of a record has a cell for every different header. -/
theorem rawRow_eq (hlen : record.length = headers.length) :
    rawRow headers record =
      ((distinct headers).map (cellUnder headers record)).map Value.str := by
  have hzip : headers.zip (record.map Value.str ++ List.replicate headers.length .null) =
      (headers.zip record).map (Prod.map id Value.str) := by
    have hlength : headers.length = (record.map Value.str).length := by simp [hlen]
    calc headers.zip (record.map Value.str ++ List.replicate headers.length Value.null)
        = (headers ++ []).zip (record.map Value.str ++ List.replicate headers.length Value.null) := by
          rw [List.append_nil]
      _ = headers.zip (record.map Value.str) := by
          rw [List.zip_append hlength, List.zip_nil_left, List.append_nil]
      _ = (headers.zip record).map (Prod.map id Value.str) := List.zip_map_right ..
  have hkeys : ((headers.zip record).map (Prod.map id Value.str)).map (·.1) = headers := by
    rw [← List.zip_map_right]
    exact List.map_fst_zip (by simp [hlen])
  unfold rawRow
  dsimp only
  rw [if_neg (by omega), hzip, Fields.values_eq (Fields.keys_ofList _ ▸ nodup_distinct _),
    Fields.keys_ofList, hkeys, List.map_map]
  refine List.map_congr_left fun header hheader => ?_
  have hmem := cellUnder_mem hlen (mem_distinct.mp hheader)
  rw [Fields.get?_ofList, ← List.map_reverse, lookup_map, Function.comp_apply, cellUnder]
  have hsome : ((headers.zip record).reverse.lookup header).isSome := List.lookup_isSome_iff.mpr
    ⟨_, List.mem_reverse.mpr hmem, by simp⟩
  obtain ⟨text, htext⟩ := Option.isSome_iff_exists.mp hsome
  simp [htext]

/-- The row of a record has under each column the cell of its source. -/
theorem get?_row (hlen : record.length = headers.length) (column : String) :
    (Fields.ofList ((headers.map columnName).zip (rawRow headers record))).get? column =
      (source? headers column).map fun header => .str (cellUnder headers record header) := by
  rw [Fields.get?_ofList, rawRow_eq hlen, List.map_map, List.zip_map_right, ← List.map_reverse,
    lookup_map]
  rfl

theorem source?_mem {header : String} (h : source? headers column = some header) :
    header ∈ headers := by
  have hmem := List.mem_reverse.mp (mem_of_lookup h)
  exact mem_distinct.mp (List.of_mem_zip hmem).2

/-- What the row of a record with a field for every header has under a column: a cell of a header of
its name if the column is in place, and else nothing, or a cell of another name. -/
structure Loaded (headers record : List String) (row : Fields) : Prop where
  inPlace : ∀ column, InPlace headers column → ∃ text,
    row.get? column = some (.str text) ∧ StandsUnder headers record column text
  shifted : ∀ column, ¬ InPlace headers column → row.get? column = none ∨ ∃ name ≠ column, ∃ text,
    row.get? column = some (.str text) ∧ StandsUnder headers record name text

theorem row_loaded (hlen : record.length = headers.length) :
    Loaded headers record
      (Fields.ofList ((headers.map columnName).zip (rawRow headers record))) := by
  refine ⟨fun column hplace => ?_, fun column hshift => ?_⟩
  · obtain ⟨header, hsource, hname⟩ := Option.map_eq_some_iff.mp hplace
    exact ⟨_, by rw [get?_row hlen, hsource]; rfl, header,
      cellUnder_mem hlen (source?_mem hsource), hname⟩
  · cases hsource : source? headers column with
    | none => exact Or.inl (by rw [get?_row hlen, hsource]; rfl)
    | some header =>
      have hname : columnName header ≠ column := fun hname =>
        hshift (Option.map_eq_some_iff.mpr ⟨header, hsource, hname⟩)
      exact Or.inr ⟨_, hname, _, by rw [get?_row hlen, hsource]; rfl, header,
        cellUnder_mem hlen (source?_mem hsource), rfl⟩

/-! ### Columns in place -/

/-- No header is repeated up to the last one of the name. -/
def Unrepeated (headers : List String) (column : String) : Prop :=
  ∃ before after, headers = before ++ after ∧ before.Nodup ∧ column ∈ before.map columnName ∧
    column ∉ after.map columnName

/-- Where every header has its own name beside it, the names lead to headers. -/
theorem exists_lookup {name : String → String} (h : column ∈ headers.map name) :
    ∃ header, ((headers.map name).zip headers).reverse.lookup column = some header ∧
      name header = column := by
  have hpairs : (headers.map name).zip headers = headers.map fun g => (name g, g) := by
    simpa using List.zip_map' (f := name) (g := id) (l := headers)
  obtain ⟨named, hnamed, hname⟩ := List.mem_map.mp h
  have hsome : ((headers.map fun g => (name g, g)).reverse.lookup column).isSome := by
    refine List.lookup_isSome_iff.mpr ⟨(name named, named), ?_, by simp [hname]⟩
    exact List.mem_reverse.mpr (List.mem_map_of_mem hnamed)
  obtain ⟨header, hheader⟩ := Option.isSome_iff_exists.mp hsome
  obtain ⟨g, -, hg⟩ := List.mem_map.mp (List.mem_reverse.mp (mem_of_lookup hheader))
  obtain ⟨hcolumn, rfl⟩ := Prod.mk.inj hg
  exact ⟨g, by rw [hpairs, hheader], hcolumn⟩

theorem Unrepeated.inPlace (h : Unrepeated headers column) : InPlace headers column := by
  obtain ⟨before, after, rfl, hnodup, hbefore, hafter⟩ := h
  obtain ⟨rest, hrest⟩ := distinct_append hnodup after
  have hzip : ((before ++ after).map columnName).zip (distinct (before ++ after)) =
      (before.map columnName).zip before ++ (after.map columnName).zip rest := by
    rw [hrest, List.map_append]
    exact List.zip_append (by simp)
  have hnone : ((after.map columnName).zip rest).reverse.lookup column = none := by
    refine List.lookup_eq_none_iff.mpr fun p hp => bne_iff_ne.mpr ?_
    rintro rfl
    exact hafter (List.of_mem_zip (List.mem_reverse.mp hp)).1
  obtain ⟨header, hheader, hname⟩ := exists_lookup hbefore
  refine Option.map_eq_some_iff.mpr ⟨header, ?_, hname⟩
  rw [source?, hzip, List.reverse_append, List.lookup_append, hnone, Option.none_or, hheader]

/-! ### Tables -/

/-- A table with all columns is loaded. -/
theorem readRows_eq {path content : String} {records : List (List String)}
    (hcsv : Csv.records content = headers :: records)
    (hrequired : ∀ column ∈ required, column ∈ headers.map columnName) :
    (readRows path content).outcome.1 = .ok (rowsOf headers records) := by
  have hmissing : required.filter (fun column => !(headers.map columnName).contains column) = [] :=
    List.filter_eq_nil_iff.mpr fun column hcolumn => by simpa using hrequired column hcolumn
  unfold readRows
  rw [hcsv]
  simp only [hmissing]
  rfl

/-- The records that have fields are loaded in their order, and a column is in place where no header
is repeated up to the last one of its name. -/
theorem readRows_in_place_unless_shifted (path : String) {content : String} {headers : List String}
    {records : List (List String)} (hcsv : Csv.records content = headers :: records)
    (hrequired : ∀ column ∈ required, column ∈ headers.map columnName) :
    ∃ rows, (readRows path content).outcome.1 = .ok rows ∧
      List.Forall₂ (fun record row => record.length = headers.length → Loaded headers record row)
        (records.filter fun record => !record.isEmpty) rows ∧
      ∀ column, Unrepeated headers column → InPlace headers column := by
  refine ⟨rowsOf headers records, readRows_eq hcsv hrequired, ?_, fun _ => Unrepeated.inPlace⟩
  rw [rowsOf, List.forall₂_map_right_iff, List.forall₂_same]
  exact fun record _ hlen => row_loaded hlen

/-- Different headers may name one column. -/
def renamedHeaders : List String := ["Date", "ts", "o", "h", "l", "c", "Vol"]

def renamedRecord : List String := ["1", "2", "3", "4", "5", "6", "7"]

def renamedTable : String := "Date,ts,o,h,l,c,Vol\n1,2,3,4,5,6,7\n"

theorem renamedTable_in_place :
    Csv.records renamedTable = [renamedHeaders, renamedRecord] ∧
      (∀ column ∈ required, column ∈ renamedHeaders.map columnName) ∧
      ∃ row, (readRows "d.csv" renamedTable).outcome.1 = .ok [row] ∧
        ∀ column ∈ required, ∃ text, row.get? column = some (.str text) ∧
          StandsUnder renamedHeaders renamedRecord column text := by
  have hcsv : Csv.records renamedTable = [renamedHeaders, renamedRecord] := by decide +kernel
  have hrequired : ∀ column ∈ required, column ∈ renamedHeaders.map columnName := by
    decide +kernel
  obtain ⟨rows, hrows, hloaded, hplace⟩ := readRows_in_place_unless_shifted "d.csv" hcsv
    hrequired
  obtain ⟨row, _, hrow, hnil, rfl⟩ := List.forall₂_cons_left_iff.mp hloaded
  obtain rfl := List.forall₂_nil_left_iff.mp hnil
  refine ⟨hcsv, hrequired, row, hrows, fun column hcolumn => (hrow rfl).inPlace column ?_⟩
  exact hplace column ⟨renamedHeaders, [], rfl, by decide, hrequired column hcolumn, by simp⟩

/-- A header that is repeated moves the cells behind it: the opening price is the highest one, and
so on, and there is no volume. -/
def repeatedHeaders : List String :=
  ["timestamp", "open", "open", "high", "low", "close", "volume"]

def repeatedRecord : List String := ["1", "10", "10", "20", "5", "15", "100"]

def repeatedTable : String :=
  "timestamp,open,open,high,low,close,volume\n1,10,10,20,5,15,100\n"

theorem repeatedTable_shifted :
    Csv.records repeatedTable = [repeatedHeaders, repeatedRecord] ∧
      (∀ column ∈ required, column ∈ repeatedHeaders.map columnName) ∧
      repeatedRecord.length = repeatedHeaders.length ∧
      ∃ row, (readRows "d.csv" repeatedTable).outcome.1 = .ok [row] ∧
        row.get? "open" = some (.str "20") ∧ row.get? "high" = some (.str "5") ∧
        row.get? "low" = some (.str "15") ∧ row.get? "close" = some (.str "100") ∧
        row.get? "volume" = none ∧ ¬ StandsUnder repeatedHeaders repeatedRecord "open" "20" := by
  have hcsv : Csv.records repeatedTable = [repeatedHeaders, repeatedRecord] := by decide +kernel
  have hrequired : ∀ column ∈ required, column ∈ repeatedHeaders.map columnName := by
    decide +kernel
  have hlen : repeatedRecord.length = repeatedHeaders.length := rfl
  have hcell : ∀ column header text, source? repeatedHeaders column = some header →
      cellUnder repeatedHeaders repeatedRecord header = text →
      (Fields.ofList ((repeatedHeaders.map columnName).zip
        (rawRow repeatedHeaders repeatedRecord))).get? column = some (.str text) := by
    rintro column header text hsource rfl
    rw [get?_row hlen, hsource, Option.map_some]
  have hnone : (Fields.ofList ((repeatedHeaders.map columnName).zip
      (rawRow repeatedHeaders repeatedRecord))).get? "volume" = none := by
    have hsource : source? repeatedHeaders "volume" = none := by decide +kernel
    rw [get?_row hlen, hsource, Option.map_none]
  refine ⟨hcsv, hrequired, hlen, _, readRows_eq hcsv hrequired,
    hcell _ "high" _ (by decide +kernel) (by decide), hcell _ "low" _ (by decide +kernel) (by decide),
    hcell _ "close" _ (by decide +kernel) (by decide),
    hcell _ "volume" _ (by decide +kernel) (by decide), hnone, ?_⟩
  rintro ⟨header, hmem, hname⟩
  have hheader : header = "high" := by
    simpa [repeatedHeaders, repeatedRecord] using hmem
  subst hheader
  revert hname
  decide +kernel

end Market.Loader
end Flowline
