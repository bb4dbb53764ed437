import Flowline.Proofs.Data.Value
import Flowline.Proofs.Document.Reader
import Mathlib.Data.List.Forall2

/-!
# The grammar of documents

`Holds` and `Describes` say which values are documents and of which nodes, `Defective` what can be
wrong with an entry. The reader takes a document as it is written, and of any other value it reports
every defect of every entry once.
-/
namespace Flowline.Document

/-! ### Entries and their defects -/

/-- The root holds these node entries. -/
inductive Holds : Value → List Value → Prop
  | null : Holds .null []
  | list (entries : List Value) : Holds (.list entries) entries
  | nodes {fs : Fields} {entries : List Value}
      (h : Fields.get? fs "nodes" = some (.list entries)) : Holds (.map fs) entries
  | noNodes {fs : Fields} (h : Fields.get? fs "nodes" = some .null) : Holds (.map fs) []

/-- The dependency field lists these ids. -/
inductive Lists : Option Value → List String → Prop
  | absent : Lists none []
  | null : Lists (some .null) []
  | ids (ids : List String) : Lists (some (.list (ids.map .str))) ids

def paramsField (v : Value) : Option Value := (v.get? "params").or (v.get? "parameters")

def dependencyField (v : Value) : Option Value := (v.get? "depends_on").or (v.get? "dependsOn")

/-- The entry is the declaration, written as a mapping. -/
structure Describes (v : Value) (n : Declaration) : Prop where
  id : v.get? "id" = some (.str n.id)
  type : v.get? "type" = some (.str n.type)
  notBlank : Text.allBlank n.type = false
  params : paramsField v = some (.map n.params)
  dependsOn : Lists (dependencyField v) n.dependsOn

/-- What can be wrong with an entry. -/
inductive Part where
  | entry
  | id
  | type
  | params
  | dependsOn
  | dependency (index : Nat)

namespace Part

def code : Part → String
  | dependsOn | dependency _ => "E005"
  | _ => "E004"

/-- The path of the part within its entry. -/
def path? : Part → Option String
  | entry => none
  | id => some "id"
  | type => some "type"
  | params => some "params"
  | dependsOn => some "depends_on"
  | dependency j => some s!"depends_on[{j}]"

/-- The place of the part in the order of reports. -/
def rank : Part → Nat
  | entry => 0
  | id => 1
  | type => 2
  | params => 3
  | dependsOn => 4
  | dependency j => 5 + j

end Part

/-- The dependency field is not a list of texts. -/
inductive Unlisted (v : Option Value) : Part → Prop
  | kind {w : Value} (h : v = some w) (hnull : w ≠ .null) (hlist : ∀ items, w ≠ .list items) :
      Unlisted v .dependsOn
  | item {items : List Value} {w : Value} {j : Nat} (h : v = some (.list items))
      (hj : items[j]? = some w) (hw : ∀ s, w ≠ .str s) : Unlisted v (.dependency j)

/-- The entry is wrong in this part. -/
inductive Defective (v : Value) : Part → Prop
  | entry (hv : v.isMap = false) : Defective v .entry
  | id (hv : v.isMap = true) (h : ∀ s, v.get? "id" ≠ some (.str s)) : Defective v .id
  | type (hv : v.isMap = true) (h : ∀ s, v.get? "type" = some (.str s) → Text.allBlank s = true) :
      Defective v .type
  | params (hv : v.isMap = true) (h : ∀ fs, paramsField v ≠ some (.map fs)) : Defective v .params
  | dependencies {p : Part} (h : Unlisted (dependencyField v) p) : Defective v p

/-- The diagnostic reports the part of the entry at index `i`. -/
structure Reports (i : Nat) (location node : Option String) (p : Part) (d : Diagnostic) : Prop where
  concern : d.concern = .syntactic
  severity : d.severity = .error
  code : d.code = p.code
  field : d.field = p.path?.map (fieldPlace i)
  location : d.location = location
  node : d.node = node

/-- Each of the parts is reported once, in order, and nothing else is. -/
def Reported (report : Part → Diagnostic → Prop) (bad : Part → Prop) (ds : List Diagnostic) :
    Prop :=
  ∃ parts : List Part, parts.Pairwise (·.rank < ·.rank) ∧ (∀ p, p ∈ parts ↔ bad p) ∧
    List.Forall₂ report parts ds

/-- The defects of all entries are reported, entry by entry; each report names its entry and, where
it has one, the id of the node. -/
inductive EntriesReported : Nat → List Value → List Diagnostic → Prop
  | nil (i : Nat) : EntriesReported i [] []
  | cons {i : Nat} {v : Value} {rest : List Value} {ds later : List Diagnostic}
      (h : Reported (Reports i (some (entryPlace i)) ((v.get? "id").bind Value.asStr?))
        (Defective v) ds)
      (hlater : EntriesReported (i + 1) rest later) : EntriesReported i (v :: rest) (ds ++ later)

/-! ### Reports -/

namespace Reported

variable {report report' : Part → Diagnostic → Prop} {bad bad' : Part → Prop}
  {ds ds' : List Diagnostic}

theorem nil (h : ∀ p, ¬ bad p) : Reported report bad [] :=
  ⟨[], .nil, fun p => ⟨fun hp => absurd hp List.not_mem_nil, fun hp => absurd hp (h p)⟩, .nil⟩

theorem single {p : Part} {d : Diagnostic} (h : ∀ q, bad q ↔ q = p) (hd : report p d) :
    Reported report bad [d] :=
  ⟨[p], List.pairwise_singleton _ _, fun q => List.mem_singleton.trans (h q).symm, .cons hd .nil⟩

theorem append (h : Reported report bad ds) (h' : Reported report bad' ds')
    (hlt : ∀ p q, bad p → bad' q → p.rank < q.rank) :
    Reported report (fun p => bad p ∨ bad' p) (ds ++ ds') := by
  obtain ⟨parts, hsorted, hparts, hds⟩ := h
  obtain ⟨parts', hsorted', hparts', hds'⟩ := h'
  refine ⟨parts ++ parts', List.pairwise_append.mpr ⟨hsorted, hsorted', fun p hp q hq => ?_⟩,
    fun p => ?_, List.rel_append hds hds'⟩
  · exact hlt p q ((hparts p).mp hp) ((hparts' q).mp hq)
  · rw [List.mem_append, hparts, hparts']

theorem congr (h : Reported report bad ds) (hbad : ∀ p, bad p ↔ bad' p) :
    Reported report bad' ds := by
  obtain ⟨parts, hsorted, hparts, hds⟩ := h
  exact ⟨parts, hsorted, fun p => (hparts p).trans (hbad p), hds⟩

/-- More is said of the places of the defects. -/
theorem map (h : Reported report bad ds) {place : Diagnostic → Diagnostic}
    (hplace : ∀ p d, report p d → report' p (place d)) : Reported report' bad (ds.map place) := by
  obtain ⟨parts, hsorted, hparts, hds⟩ := h
  exact ⟨parts, hsorted, hparts, List.forall₂_map_right_iff.mpr (hds.imp hplace)⟩

end Reported

/-- What was read is what should be read, and all that is wrong is reported. -/
structure Judged {α : Type} (report : Part → Diagnostic → Prop) (good : α → Prop)
    (bad : Part → Prop) (x : Checked α) : Prop where
  accepts : ∀ a, x = .ok a ↔ good a
  reported : Reported report bad (faults x)

namespace Judged

variable {α : Type} {report : Part → Diagnostic → Prop} {good : α → Prop} {bad : Part → Prop}

theorem ok {a : α} (hgood : ∀ b, good b ↔ a = b) (hbad : ∀ p, ¬ bad p) :
    Judged report good bad (.ok a) where
  accepts b := by rw [Except.ok.injEq, hgood]
  reported := .nil hbad

theorem fault {p : Part} {d : Diagnostic} (hgood : ∀ a, ¬ good a) (hbad : ∀ q, bad q ↔ q = p)
    (hd : report p d) : Judged report good bad (.error [d]) where
  accepts a := ⟨nofun, fun ha => absurd ha (hgood a)⟩
  reported := .single hbad hd

end Judged

/-! ### Fields -/

def partOf : EntryField → Part
  | .id => .id
  | .type => .type
  | .params => .params

/-- The fault of a field that every entry has. -/
theorem reports_field (i : Nat) (field : EntryField) {f : Finding}
    (hconcern : f.concern = .syntactic) (hseverity : f.severity = .error)
    (hcode : f.code = "E004") :
    Reports i none none (partOf field) (faultAt i field.name f) where
  concern := hconcern
  severity := hseverity
  code := hcode.trans (by cases field <;> rfl)
  field := by cases field <;> rfl
  location := rfl
  node := rfl

theorem judged_field {α : Type} (i : Nat) (field : EntryField) {convert : Value → Option α}
    {written : α → Value} (hconvert : ∀ w a, convert w = some a ↔ w = written a)
    (v : Option Value) :
    Judged (Reports i none none) (fun a => v = some (written a))
      (fun p => p = partOf field ∧ ∀ a, v ≠ some (written a)) (readField i field convert v) := by
  cases v with
  | none =>
    exact .fault nofun (fun q => and_iff_left nofun)
      (reports_field i field (f := .fieldAbsent field) rfl rfl rfl)
  | some w =>
    dsimp only [readField]
    cases hw : convert w with
    | none =>
      have hnot : ∀ a, some w ≠ some (written a) := fun a ha => by
        rw [(hconvert w a).mpr (Option.some.inj ha)] at hw
        cases hw
      exact .fault hnot (fun q => and_iff_left hnot)
        (reports_field i field (f := .fieldKind field w.kindName) rfl rfl rfl)
    | some a =>
      have hwritten := (hconvert w a).mp hw
      have hgood : ∀ b, some w = some (written b) ↔ a = b := fun b => by
        rw [Option.some.injEq, ← hconvert, hw, Option.some.injEq]
      exact .ok hgood fun p hp => hp.2 a (congrArg some hwritten)

theorem judged_type (i : Nat) (v : Option Value) :
    Judged (Reports i none none) (fun t => v = some (.str t) ∧ Text.allBlank t = false)
      (fun p => p = .type ∧ ∀ t, v = some (.str t) → Text.allBlank t = true) (readType i v) := by
  have hfield := judged_field i .type (fun _ _ => Value.asStr?_eq_some) v
  unfold readType
  cases hread : readField i .type Value.asStr? v with
  | error ds =>
    rw [hread] at hfield
    have hnot : ∀ t, v ≠ some (.str t) := fun t ht => nomatch (hfield.accepts t).mpr ht
    exact {
      accepts := fun t => ⟨nofun, fun ht => absurd ht.1 (hnot t)⟩
      reported := hfield.reported.congr fun p => and_congr_right fun _ =>
        ⟨fun _ t ht => absurd ht (hnot t), fun _ => hnot⟩ }
  | ok t =>
    obtain rfl := (hfield.accepts t).mp hread
    dsimp only
    by_cases hblank : Text.allBlank t = true
    · rw [if_pos hblank]
      have hall : ∀ u, some (Value.str t) = some (.str u) → Text.allBlank u = true := by
        rintro u ⟨⟩
        exact hblank
      exact .fault (fun u hu => by simp [hall u hu.1] at hu) (fun q => and_iff_left hall)
        (reports_field i .type (f := .typeBlank) rfl rfl rfl)
    · rw [if_neg hblank]
      have hgood : ∀ u, (some (Value.str t) = some (.str u) ∧ Text.allBlank u = false) ↔ t = u := by
        intro u
        constructor
        · rintro ⟨⟨⟩, -⟩
          rfl
        · rintro rfl
          exact ⟨rfl, Bool.eq_false_iff.mpr hblank⟩
      exact .ok hgood fun p hp => hblank (hp.2 t rfl)

/-! ### Dependencies -/

/-- Texts are taken as they are. -/
theorem readTargets_eq_iff {index i : Nat} {items : List Value} {ids : List String} :
    readTargets index i items = (ids, []) ↔ items = ids.map .str := by
  fun_induction readTargets index i items generalizing ids with
  | case1 => simp [eq_comm]
  | case2 i s rest targets faults heq ih =>
    simp only [heq, Prod.mk.injEq] at ih
    cases ids with
    | nil => simp
    | cons id ids => simp [and_assoc, ih]
  | case3 i v rest hv targets faults heq ih =>
    cases ids with
    | nil => simp
    | cons id ids => simpa using fun h => absurd h (hv id)

/-- Everything else is reported with its index. -/
theorem readTargets_reported (index i : Nat) (items : List Value) :
    Reported (Reports index none none)
      (fun p => ∃ j w, p = .dependency j ∧ (w, j) ∈ items.zipIdx i ∧ ∀ s, w ≠ .str s)
      (readTargets index i items).2 := by
  fun_induction readTargets index i items with
  | case1 => exact .nil (by simp)
  | case2 i s rest targets faults heq ih =>
    rw [heq] at ih
    refine ih.congr fun p => ?_
    simp only [List.zipIdx_cons, List.mem_cons]
    constructor
    · rintro ⟨j, w, rfl, hmem, hw⟩
      exact ⟨j, w, rfl, .inr hmem, hw⟩
    · rintro ⟨j, w, rfl, heq | hmem, hw⟩
      · exact absurd (Prod.mk.inj heq).1 (hw s)
      · exact ⟨j, w, rfl, hmem, hw⟩
  | case3 i v rest hv targets faults heq ih =>
    rw [heq] at ih
    have hhere : Reported (Reports index none none) (· = .dependency i)
        [faultAt index s!"depends_on[{i}]" (.dependencyKind v.kindName)] :=
      .single (fun q => Iff.rfl) ⟨rfl, rfl, rfl, rfl, rfl, rfl⟩
    refine (hhere.append ih ?_).congr fun p => ?_
    · rintro p q rfl ⟨j, w, rfl, hmem, -⟩
      have hle := List.le_snd_of_mem_zipIdx hmem
      simp only [Part.rank]
      omega
    · simp only [List.zipIdx_cons, List.mem_cons]
      constructor
      · rintro (rfl | ⟨j, w, rfl, hmem, hw⟩)
        · exact ⟨i, v, rfl, .inl rfl, hv⟩
        · exact ⟨j, w, rfl, .inr hmem, hw⟩
      · rintro ⟨j, w, rfl, heq | hmem, hw⟩
        · exact .inl (congrArg Part.dependency (Prod.mk.inj heq).2)
        · exact .inr ⟨j, w, rfl, hmem, hw⟩

theorem lists_list_iff {items : List Value} {ids : List String} :
    Lists (some (.list items)) ids ↔ items = ids.map .str := by
  constructor
  · rintro ⟨⟩
    rfl
  · rintro rfl
    exact .ids ids

theorem unlisted_list_iff {items : List Value} {p : Part} : Unlisted (some (.list items)) p ↔
    ∃ j w, p = .dependency j ∧ (w, j) ∈ items.zipIdx ∧ ∀ s, w ≠ .str s := by
  simp only [List.mk_mem_zipIdx_iff_getElem?]
  constructor
  · rintro (⟨⟨⟩, -, hlist⟩ | ⟨⟨⟩, hj, hw⟩)
    · exact absurd rfl (hlist items)
    · exact ⟨_, _, rfl, hj, hw⟩
  · rintro ⟨j, w, rfl, hj, hw⟩
    exact .item rfl hj hw

theorem judged_dependencies (i : Nat) (v : Option Value) :
    Judged (Reports i none none) (Lists v) (Unlisted v) (readDependencies i v) := by
  unfold readDependencies
  split
  · exact .ok (fun ids => ⟨by rintro ⟨⟩; rfl, by rintro rfl; exact .absent⟩) nofun
  · exact .ok (fun ids => ⟨by rintro ⟨⟩; rfl, by rintro rfl; exact .null⟩)
      (by rintro p (⟨⟨⟩, hnull, -⟩ | ⟨⟨⟩, -, -⟩); exact hnull rfl)
  · rename_i items
    have hreported := (readTargets_reported i 0 items).congr fun p => unlisted_list_iff.symm
    have htargets : ∀ ids, readTargets i 0 items = (ids, []) ↔ Lists (some (.list items)) ids :=
      fun ids => readTargets_eq_iff.trans lists_list_iff.symm
    generalize readTargets i 0 items = targets at hreported htargets
    obtain ⟨ids, _ | ⟨d, ds⟩⟩ := targets
    · refine ⟨fun b => ?_, hreported⟩
      rw [← htargets, Except.ok.injEq, Prod.mk.injEq, and_iff_left rfl]
    · refine ⟨fun b => ?_, hreported⟩
      rw [← htargets, Prod.mk.injEq]
      exact ⟨nofun, nofun⟩
  · rename_i w hnull hlist
    have hkind : ∀ q, Unlisted (some w) q ↔ q = .dependsOn := by
      intro q
      constructor
      · rintro (_ | ⟨hitems, -, -⟩)
        · rfl
        · exact absurd (Option.some.inj hitems) (hlist _)
      · rintro rfl
        exact .kind rfl hnull hlist
    exact .fault (by rintro ids (_ | _ | _); exacts [hnull rfl, hlist _ rfl]) hkind
      ⟨rfl, rfl, rfl, rfl, rfl, rfl⟩

/-! ### Entries -/

theorem defective_of_not_map {v : Value} (hv : v.isMap = false) (p : Part) :
    Defective v p ↔ p = .entry := by
  have hfield : dependencyField v = none := by
    cases v with
    | map fs => cases hv
    | _ => rfl
  constructor
  · rintro (_ | ⟨hmap, -⟩ | ⟨hmap, -⟩ | ⟨hmap, -⟩ | hlisted)
    · rfl
    · rw [hv] at hmap; cases hmap
    · rw [hv] at hmap; cases hmap
    · rw [hv] at hmap; cases hmap
    · rw [hfield] at hlisted
      rcases hlisted with ⟨⟨⟩, -, -⟩ | ⟨⟨⟩, -, -⟩
  · rintro rfl
    exact .entry hv

/-- The defects of a mapping are those of its four fields. -/
theorem defective_map_iff {fs : Fields} {p : Part} : Defective (.map fs) p ↔
    (((p = .id ∧ ∀ s, Fields.get? fs "id" ≠ some (.str s)) ∨
      (p = .type ∧ ∀ t, Fields.get? fs "type" = some (.str t) → Text.allBlank t = true)) ∨
      (p = .params ∧ ∀ ps, paramsField (.map fs) ≠ some (.map ps))) ∨
      Unlisted (dependencyField (.map fs)) p := by
  constructor
  · rintro (⟨⟨⟩⟩ | ⟨-, h⟩ | ⟨-, h⟩ | ⟨-, h⟩ | h)
    · exact .inl (.inl (.inl ⟨rfl, h⟩))
    · exact .inl (.inl (.inr ⟨rfl, h⟩))
    · exact .inl (.inr ⟨rfl, h⟩)
    · exact .inr h
  · rintro (((⟨rfl, h⟩ | ⟨rfl, h⟩) | ⟨rfl, h⟩) | h)
    · exact .id rfl h
    · exact .type rfl h
    · exact .params rfl h
    · exact .dependencies h

theorem rank_of_unlisted {v : Option Value} {p : Part} (h : Unlisted v p) : 4 ≤ p.rank := by
  cases h with
  | kind => exact Nat.le_refl 4
  | item => exact Nat.le_add_right_of_le (by decide)

theorem paramsField_map (fs : Fields) : paramsField (.map fs) =
    if Fields.has fs "params" then Fields.get? fs "params" else Fields.get? fs "parameters" := by
  change (Fields.get? fs "params").or (Fields.get? fs "parameters") = _
  by_cases hparams : Fields.has fs "params" = true
  · obtain ⟨w, hw⟩ := Fields.exists_get?_of_has hparams
    rw [if_pos hparams, hw, Option.some_or]
  · rw [if_neg hparams]
    cases hw : Fields.get? fs "params" with
    | none => exact Option.none_or
    | some w =>
      exact absurd (Fields.has_iff.mpr (List.mem_map_of_mem (Fields.get?_mem hw))) hparams

theorem dependencyField_map (fs : Fields) : dependencyField (.map fs) =
    (Fields.get? fs "depends_on").orElse fun _ => Fields.get? fs "dependsOn" :=
  Option.or_eq_orElse

theorem describes_map_iff {fs : Fields} {n : Declaration} : Describes (.map fs) n ↔
    Fields.get? fs "id" = some (.str n.id) ∧
      (Fields.get? fs "type" = some (.str n.type) ∧ Text.allBlank n.type = false) ∧
      paramsField (.map fs) = some (.map n.params) ∧
      Lists (dependencyField (.map fs)) n.dependsOn :=
  ⟨fun h => ⟨h.id, ⟨h.type, h.notBlank⟩, h.params, h.dependsOn⟩,
    fun ⟨hid, ⟨htype, hblank⟩, hparams, hdepends⟩ => ⟨hid, htype, hblank, hparams, hdepends⟩⟩

/-- The reports on the four fields of a mapping come in the order of their parts. -/
theorem Reported.map_fields {report : Part → Diagnostic → Prop} {fs : Fields}
    {ids types params deps : List Diagnostic}
    (hid : Reported report (fun p => p = .id ∧ ∀ s, Fields.get? fs "id" ≠ some (.str s)) ids)
    (htype : Reported report (fun p => p = .type ∧
      ∀ t, Fields.get? fs "type" = some (.str t) → Text.allBlank t = true) types)
    (hparams : Reported report (fun p => p = .params ∧
      ∀ ps, paramsField (.map fs) ≠ some (.map ps)) params)
    (hdepends : Reported report (Unlisted (dependencyField (.map fs))) deps) :
    Reported report (Defective (.map fs)) (ids ++ types ++ params ++ deps) := by
  refine (((hid.append htype ?_).append hparams ?_).append hdepends ?_).congr
    fun p => defective_map_iff.symm
  · rintro p q ⟨rfl, -⟩ ⟨rfl, -⟩
    decide
  · rintro p q (⟨rfl, -⟩ | ⟨rfl, -⟩) ⟨rfl, -⟩ <;> decide
  · rintro p q ((⟨rfl, -⟩ | ⟨rfl, -⟩) | ⟨rfl, -⟩) hq <;>
      exact Nat.lt_of_lt_of_le (by decide) (rank_of_unlisted hq)

/-- A diagnostic of an entry names its place, and its node where the id is known. -/
def placed (i : Nat) (id : Checked String) (d : Diagnostic) : Diagnostic :=
  match id with
  | .ok id => (d.atLocation (entryPlace i)).atNode id
  | .error _ => d.atLocation (entryPlace i)

theorem Reports.placed {i : Nat} {p : Part} {d : Diagnostic} (h : Reports i none none p d)
    (id : Checked String) :
    Reports i (some (entryPlace i)) id.toOption p (Document.placed i id d) := by
  cases id with
  | ok id => exact ⟨h.concern, h.severity, h.code, h.field, rfl, rfl⟩
  | error ds => exact ⟨h.concern, h.severity, h.code, h.field, rfl, h.node⟩

/-- The id of an entry is known if it could be read. -/
theorem knownId_eq_toOption {v : Option Value} {id : Checked String}
    (hid : ∀ s, id = .ok s ↔ v = some (.str s)) : v.bind Value.asStr? = id.toOption := by
  ext s
  have hwritten : v.bind Value.asStr? = some s ↔ id = .ok s := by
    rw [hid, Option.bind_eq_some_iff]
    simp [Value.asStr?_eq_some]
  rw [hwritten]
  cases id <;> simp [Except.toOption]

theorem judged_entry (i : Nat) (v : Value) :
    Judged (Reports i (some (entryPlace i)) ((v.get? "id").bind Value.asStr?)) (Describes v)
      (Defective v) (readEntry i v) := by
  cases v with
  | map fs =>
    have hid := judged_field i .id (fun _ _ => Value.asStr?_eq_some) (Fields.get? fs "id")
    have htype := judged_type i (Fields.get? fs "type")
    have hparams := judged_field i .params (fun _ _ => Value.asMap?_eq_some) (paramsField (.map fs))
    have hdepends := judged_dependencies i (dependencyField (.map fs))
    unfold readEntry
    dsimp only
    rw [← paramsField_map, ← dependencyField_map]
    generalize readField i .id _ _ = id at hid ⊢
    generalize readType i _ = type at htype ⊢
    generalize readField i .params _ _ = params at hparams ⊢
    generalize readDependencies i _ = dependsOn at hdepends ⊢
    have hdescribes : ∀ n, Describes (.map fs) n ↔ id = .ok n.id ∧ type = .ok n.type ∧
        params = .ok n.params ∧ dependsOn = .ok n.dependsOn := fun n => by
      rw [hid.accepts, htype.accepts, hparams.accepts, hdepends.accepts, describes_map_iff]
    have hnode : ((Value.map fs).get? "id").bind Value.asStr? = id.toOption :=
      knownId_eq_toOption hid.accepts
    have hall : Reported (Reports i (some (entryPlace i)) id.toOption) (Defective (.map fs))
        ((faults id ++ faults type ++ faults params ++ faults dependsOn).map (placed i id)) :=
      (hid.reported.map_fields htype.reported hparams.reported hdepends.reported).map
        fun p d hd => hd.placed id
    rw [hnode]
    -- only where all four fields could be read there is a node
    rcases id with _ | _ <;> rcases type with _ | _ <;> rcases params with _ | _ <;>
      rcases dependsOn with _ | _ <;> exact ⟨fun n => by cases n; simp [hdescribes], hall⟩
  | _ =>
    exact .fault (fun n hn => nomatch hn.id) (defective_of_not_map rfl)
      ⟨rfl, rfl, rfl, rfl, rfl, rfl⟩

theorem readEntries_eq_ok_iff {i : Nat} {entries : List Value} {nodes : List Declaration} :
    readEntries i entries = .ok nodes ↔ List.Forall₂ Describes entries nodes := by
  induction entries generalizing i nodes with
  | nil => simp [readEntries, eq_comm]
  | cons v rest ih =>
    have hv := (judged_entry i v).accepts
    have hrest : ∀ nodes, readEntries (i + 1) rest = .ok nodes ↔
        List.Forall₂ Describes rest nodes := fun _ => ih
    rw [readEntries, List.forall₂_cons_left_iff]
    generalize readEntry i v = entry at hv ⊢
    generalize readEntries (i + 1) rest = later at hrest ⊢
    simp only [← hv, ← hrest]
    cases entry <;> cases later <;> simp [eq_comm]

theorem readEntries_reported (i : Nat) (entries : List Value) :
    EntriesReported i entries (faults (readEntries i entries)) := by
  induction entries generalizing i with
  | nil => exact .nil i
  | cons v rest ih =>
    have hreported := (judged_entry i v).reported
    have hlater := ih (i + 1)
    unfold readEntries
    generalize readEntry i v = entry at hreported ⊢
    generalize readEntries (i + 1) rest = later at hlater ⊢
    cases entry <;> cases later <;> exact .cons hreported hlater

/-! ### Documents -/

theorem Holds.unique {v : Value} {entries others : List Value} (h : Holds v entries)
    (h' : Holds v others) : entries = others := by
  cases h with
  | null => cases h'; rfl
  | list => cases h'; rfl
  | nodes h =>
    cases h' with
    | nodes h' => exact Value.list.inj (Option.some.inj (h.symm.trans h'))
    | noNodes h' => cases h.symm.trans h'
  | noNodes h =>
    cases h' with
    | nodes h' => cases h.symm.trans h'
    | noNodes => rfl

/-- The entries of a root become the nodes of the document. -/
theorem Holds.ofValue_eq {v : Value} {entries : List Value} (h : Holds v entries) :
    ∃ titled : List Declaration → Document, (∀ nodes, (titled nodes).nodes = nodes) ∧
      ofValue v = (readEntries 0 entries).map titled := by
  unfold ofValue
  cases h with
  | null => exact ⟨fun nodes => { nodes }, fun _ => rfl, rfl⟩
  | list entries => exact ⟨fun nodes => { nodes }, fun _ => rfl, rfl⟩
  | nodes h | noNodes h =>
    dsimp only
    rw [h]
    exact ⟨_, fun _ => rfl, rfl⟩

/-- The diagnostic reports a root that holds no entries. -/
structure ReportsRoot (d : Diagnostic) : Prop where
  concern : d.concern = .syntactic
  severity : d.severity = .error
  code : d.code = "E002"

theorem ofValue_of_not_holds {v : Value} (h : ∀ entries, ¬ Holds v entries) :
    ∃ d, ofValue v = .error [d] ∧ ReportsRoot d := by
  unfold ofValue
  split
  · exact absurd .null (h _)
  · exact absurd (.list _) (h _)
  · dsimp only
    split
    · rename_i hnodes
      exact absurd (.nodes hnodes) (h _)
    · rename_i hnodes
      exact absurd (.noNodes hnodes) (h _)
    · exact ⟨_, rfl, rfl, rfl, rfl⟩
    · exact ⟨_, rfl, rfl, rfl, rfl⟩
  · exact ⟨_, rfl, rfl, rfl, rfl⟩

/-- All that keeps the value from being a document is reported. -/
inductive Refused (v : Value) : List Diagnostic → Prop
  | root {d : Diagnostic} (h : ∀ entries, ¬ Holds v entries) (hd : ReportsRoot d) : Refused v [d]
  | entries {entries : List Value} {ds : List Diagnostic} (h : Holds v entries)
      (hds : EntriesReported 0 entries ds) : Refused v ds

theorem exists_ofValue_iff {v : Value} {nodes : List Declaration} :
    (∃ doc, ofValue v = .ok doc ∧ doc.nodes = nodes) ↔
      ∃ entries, Holds v entries ∧ List.Forall₂ Describes entries nodes := by
  constructor
  · rintro ⟨doc, hdoc, rfl⟩
    by_cases hroot : ∃ entries, Holds v entries
    · obtain ⟨entries, hentries⟩ := hroot
      obtain ⟨titled, hnodes, heq⟩ := hentries.ofValue_eq
      rw [heq] at hdoc
      cases hread : readEntries 0 entries with
      | error ds =>
        rw [hread] at hdoc
        cases hdoc
      | ok nodes =>
        rw [hread] at hdoc
        obtain rfl : titled nodes = doc := Except.ok.inj hdoc
        rw [hnodes]
        exact ⟨entries, hentries, readEntries_eq_ok_iff.mp hread⟩
    · obtain ⟨d, hd, -⟩ := ofValue_of_not_holds (not_exists.mp hroot)
      rw [hd] at hdoc
      cases hdoc
  · rintro ⟨entries, hentries, hdescribes⟩
    obtain ⟨titled, hnodes, heq⟩ := hentries.ofValue_eq
    refine ⟨titled nodes, ?_, hnodes nodes⟩
    rw [heq, readEntries_eq_ok_iff.mpr hdescribes]
    rfl

theorem refused_of_error {v : Value} {ds : List Diagnostic} (h : ofValue v = .error ds) :
    Refused v ds := by
  by_cases hroot : ∃ entries, Holds v entries
  · obtain ⟨entries, hentries⟩ := hroot
    obtain ⟨titled, -, heq⟩ := hentries.ofValue_eq
    have hreported := readEntries_reported 0 entries
    rw [heq] at h
    cases hread : readEntries 0 entries with
    | error ds' =>
      rw [hread] at h hreported
      obtain rfl := Except.error.inj h
      exact .entries hentries hreported
    | ok nodes =>
      rw [hread] at h
      cases h
  · obtain ⟨d, hd, hreports⟩ := ofValue_of_not_holds (not_exists.mp hroot)
    obtain rfl := Except.error.inj (hd.symm.trans h)
    exact .root (not_exists.mp hroot) hreports

/-- A value is read as a document exactly if it is one, and then as it is written; otherwise each of
its defects is reported once. -/
theorem ofValue_grammatical (v : Value) :
    (∀ nodes, (∃ doc, ofValue v = .ok doc ∧ doc.nodes = nodes) ↔
      ∃ entries, Holds v entries ∧ List.Forall₂ Describes entries nodes) ∧
    ((∀ doc, ofValue v ≠ .ok doc) → ∃ ds, ofValue v = .error ds ∧ ds ≠ [] ∧ Refused v ds) := by
  refine ⟨fun nodes => exists_ofValue_iff, fun hnot => ?_⟩
  cases h : ofValue v with
  | ok doc => exact absurd h (hnot doc)
  | error ds =>
    obtain ⟨d, hd, -⟩ := ofValue_refuses v ds h
    exact ⟨ds, rfl, List.ne_nil_of_mem hd, refused_of_error h⟩

/-- An entry with a blank type and a dependency that is no text, and an entry without defects. -/
def mixedEntries : Value :=
  .list [.map [("id", .str "a"), ("type", .str " "), ("params", .map []),
      ("depends_on", .list [.str "b", .int 1])],
    .map [("id", .str "b"), ("type", .str "InlineDataNode"), ("parameters", .map [])]]

theorem mixedEntries_refused : ∃ ds, ofValue mixedEntries = .error ds ∧
    ds.map (fun d => (d.code, d.field, d.node)) =
      [("E004", some "nodes[0].type", some "a"),
        ("E005", some "nodes[0].depends_on[1]", some "a")] ∧ Refused mixedEntries ds := by
  obtain ⟨ds, hds, -, hrefused⟩ := (ofValue_grammatical mixedEntries).2 (fun _ h => nomatch h)
  refine ⟨ds, hds, ?_, hrefused⟩
  obtain rfl : faults (ofValue mixedEntries) = ds := congrArg faults hds
  decide

end Flowline.Document
