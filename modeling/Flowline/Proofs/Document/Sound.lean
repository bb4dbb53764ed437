import Flowline.Document.Reader
import Flowline.Proofs.Json.Sound
import Flowline.Proofs.Toml.Sound
import Flowline.Yaml.Reader

/-!
# Parameters of declarations

In whatever format a document is written, the parameters of its nodes are sound: they come from a
value that was read, and readers make sound values only.
-/

/-! ### Values read from YAML

A tree that has a value has a sound one: keys of a mapping are distinct and merged entries only fill
in what is missing, integers fit a word, and what is not finite is kept as a text. -/

namespace Flowline.Yaml

open Value (Sound IsWord)

theorem isFinite_of_not {x : Float} (hnan : x.isNaN = false) (hinf : x.isInf = false) :
    x.isFinite = true := by
  simp only [Float.isNaN, Float.isInf, Float.isFinite, Float.Model.isNaN, Float.Model.isInf,
    Float.Model.isFinite] at hnan hinf ⊢
  generalize x.toModel.unpack = u at hnan hinf ⊢
  cases u with
  | notANumber => cases hnan
  | infinity s => cases hinf
  | finite => rfl
  | zero s => rfl

theorem ofFloat_sound (x : Float) : Sound (ofFloat x) := by
  unfold ofFloat
  split
  · exact .str _
  · split
    · exact .str _
    · rename_i hnan hinf
      exact .float (isFinite_of_not (Bool.eq_false_iff.mpr hnan) (Bool.eq_false_iff.mpr hinf))

theorem isWord_of_int? {s : List Char} {n : Int} (h : int? s = some n) : IsWord n := by
  unfold int? at h
  split at h
  · obtain ⟨m, -, hm⟩ := Option.bind_eq_some_iff.mp h
    split at hm
    · rename_i hmin
      cases hm
      exact ⟨hmin, by unfold Value.maxUnsigned; omega⟩
    · cases hm
  all_goals
    obtain ⟨m, -, hm⟩ := Option.bind_eq_some_iff.mp h
    split at hm
    · rename_i hmax
      cases hm
      exact ⟨by unfold Value.minInt; omega, hmax⟩
    · cases hm

theorem resolve_sound (text : String) : Sound (resolve text) := by
  unfold resolve
  dsimp only
  split
  · exact .null
  · split
    · exact .bool _
    · split
      · rename_i hn
        exact .int (isWord_of_int? hn)
      · split
        · exact ofFloat_sound _
        · exact .str text

/-! ### Merged entries -/

theorem fillIn_sound {own more : Fields} (hown : Sound (.map own)) (hmore : ∀ f ∈ more, Sound f.2) :
    Sound (.map (fillIn own more)) := by
  unfold fillIn
  induction more generalizing own with
  | nil => exact hown
  | cons f more ih =>
    obtain ⟨key, v⟩ := f
    obtain ⟨hv, hrest⟩ := List.forall_mem_cons.mp hmore
    rw [List.foldl_cons]
    by_cases hkey : Fields.has own key = true
    · simp only [hkey, if_true]
      exact ih hown hrest
    · have hnew := Fields.insert_of_not_mem (fun hmem => hkey (Fields.has_iff.mpr hmem)) v
      simp only [hkey, ← hnew]
      exact ih (hown.insert key hv) hrest

theorem mergedFields?_sound {v : Value} (hv : Sound v) {fs : Fields}
    (h : mergedFields? v = some fs) : ∀ f ∈ fs, Sound f.2 := by
  have hlist : ∀ (vs : List Value) (acc : Fields), (∀ w ∈ vs, Sound w) → (∀ f ∈ acc, Sound f.2) →
      vs.foldlM (fun acc w => w.asMap?.map (acc ++ ·)) acc = some fs → ∀ f ∈ fs, Sound f.2 := by
    intro vs
    induction vs with
    | nil =>
      intro acc _ hacc hfs
      obtain rfl := Option.some.inj hfs
      exact hacc
    | cons w vs ih =>
      intro acc hvs hacc hfs
      obtain ⟨hw, hrest⟩ := List.forall_mem_cons.mp hvs
      rw [List.foldlM_cons] at hfs
      cases w with
      | map gs =>
        exact ih (acc ++ gs) hrest (List.forall_mem_append.mpr ⟨hacc, hw.fields⟩) hfs
      | _ => cases hfs
  cases v with
  | null =>
    obtain rfl := Option.some.inj h
    exact List.forall_mem_nil _
  | map gs =>
    obtain rfl := Option.some.inj h
    exact hv.fields
  | list vs => exact hlist vs [] hv.items (List.forall_mem_nil _) h
  | bool | int | float | str => cases h

/-! ### Trees -/

theorem itemValues?_sound {items : List Node} (hitems : ∀ n ∈ items, ∀ v, n.toValue? = some v →
    Sound v) {vs : List Value} (h : itemValues? items = some vs) : ∀ v ∈ vs, Sound v := by
  induction items generalizing vs with
  | nil =>
    obtain rfl := Option.some.inj h
    exact List.forall_mem_nil _
  | cons n items ih =>
    obtain ⟨hn, hrest⟩ := List.forall_mem_cons.mp hitems
    simp only [itemValues?, Option.bind_eq_bind, Option.pure_def, Option.bind_eq_some_iff] at h
    obtain ⟨v, hv, ws, hws, heq⟩ := h
    obtain rfl := Option.some.inj heq
    exact List.forall_mem_cons.mpr ⟨hn v hv, ih hrest hws⟩

theorem entryValues?_sound {entries : List (Node × Node)}
    (hentries : ∀ e ∈ entries, ∀ v, e.2.toValue? = some v → Sound v) {own merged : Fields}
    (h : entryValues? entries = some (own, merged)) :
    (∀ f ∈ own, Sound f.2) ∧ ∀ f ∈ merged, Sound f.2 := by
  induction entries generalizing own merged with
  | nil =>
    cases h
    exact ⟨List.forall_mem_nil _, List.forall_mem_nil _⟩
  | cons e entries ih =>
    obtain ⟨k, n⟩ := e
    obtain ⟨hn, hrest⟩ := List.forall_mem_cons.mp hentries
    simp only [entryValues?, Option.bind_eq_bind, Option.pure_def, Option.bind_eq_some_iff] at h
    obtain ⟨v, hv, ⟨own', merged'⟩, hmore, h⟩ := h
    obtain ⟨hown, hmerged⟩ := ih hrest hmore
    split at h
    · obtain ⟨gs, hgs, heq⟩ := Option.bind_eq_some_iff.mp h
      cases heq
      exact ⟨hown, List.forall_mem_append.mpr ⟨mergedFields?_sound (hn v hv) hgs, hmerged⟩⟩
    · obtain ⟨key, -, heq⟩ := Option.bind_eq_some_iff.mp h
      cases heq
      exact ⟨List.forall_mem_cons.mpr ⟨hn v hv, hown⟩, hmerged⟩

/-- Induction on a tree through the items of lists and the values of entries. -/
@[elab_as_elim] theorem Node.induct {P : Node → Prop} (scalar : ∀ plain text, P (.scalar plain text))
    (list : ∀ items, (∀ n ∈ items, P n) → P (.list items))
    (map : ∀ entries, (∀ e ∈ entries, P e.2) → P (.map entries)) (n : Node) : P n :=
  @Node.rec P (fun items => ∀ n ∈ items, P n) (fun entries => ∀ e ∈ entries, P e.2) (fun e => P e.2)
    scalar list map (List.forall_mem_nil _)
    (fun _ _ hn hrest => List.forall_mem_cons.mpr ⟨hn, hrest⟩) (List.forall_mem_nil _)
    (fun _ _ he hrest => List.forall_mem_cons.mpr ⟨he, hrest⟩) (fun _ _ _ hv => hv) n

theorem toValue?_sound (n : Node) : ∀ v, n.toValue? = some v → Sound v := by
  induction n using Node.induct with
  | scalar plain text =>
    intro v h
    obtain rfl := Option.some.inj h
    cases plain with
    | true => exact resolve_sound text
    | false => exact .str text
  | list items ih =>
    intro v h
    obtain ⟨vs, hvs, rfl⟩ := Option.map_eq_some_iff.mp h
    exact .list (itemValues?_sound ih hvs)
  | map entries ih =>
    intro v h
    obtain ⟨⟨own, merged⟩, hentries, h⟩ := Option.bind_eq_some_iff.mp h
    obtain ⟨hown, hmerged⟩ := entryValues?_sound ih hentries
    dsimp only at h
    split at h
    · rename_i hnodup
      obtain rfl := Option.some.inj h
      exact fillIn_sound (.map hnodup hown) hmerged
    · cases h

/-- What is read is sound. -/
theorem read_sound {source : String} {v : Value} (h : read source = some v) : Sound v := by
  obtain ⟨⟨root, _⟩, -, hroot⟩ := Option.bind_eq_some_iff.mp h
  exact toValue?_sound root v hroot

end Flowline.Yaml

/-! ### Documents -/

namespace Flowline

open Value (Sound)

theorem Format.read_sound {format : Format} {source : String} {v : Value}
    (h : format.read source = some v) : Sound v := by
  cases format with
  | json => exact Json.read_sound h
  | toml =>
    obtain ⟨d, hd, rfl⟩ := Option.map_eq_some_iff.mp h
    cases hread : Toml.read source with
    | error place =>
      rw [hread] at hd
      cases hd
    | ok e =>
      rw [hread] at hd
      cases hd
      exact Toml.read_sound hread
  | yaml =>
    dsimp only [Format.read] at h
    split at h
    · cases h
      exact .null
    · exact Yaml.read_sound h

namespace Document

theorem readField_eq_ok {index : Nat} {field : EntryField} {convert : Value → Option α}
    {v : Option Value} {a : α} (h : readField index field convert v = .ok a) :
    ∃ w, v = some w ∧ convert w = some a := by
  unfold readField at h
  split at h
  · cases h
  · split at h
    · rename_i b hb
      obtain rfl := Except.ok.inj h
      exact ⟨_, rfl, hb⟩
    · cases h

theorem readEntry_sound {index : Nat} {v : Value} (hv : Sound v) {d : Declaration}
    (h : readEntry index v = .ok d) : Sound (.map d.params) := by
  unfold readEntry at h
  split at h
  · rename_i fs
    dsimp only at h
    split at h
    · rename_i params _ _ _ hparams _
      cases h
      obtain ⟨w, hw, hmap⟩ := readField_eq_ok hparams
      have hsound : Sound w := by
        split at hw
        · exact hv.get? hw
        · exact hv.get? hw
      cases w with
      | map gs =>
        obtain rfl := Option.some.inj hmap
        exact hsound
      | _ => cases hmap
    · cases h
  · cases h

theorem readEntries_sound {index : Nat} {vs : List Value} (hvs : ∀ v ∈ vs, Sound v)
    {ds : List Declaration} (h : readEntries index vs = .ok ds) :
    ∀ d ∈ ds, Sound (.map d.params) := by
  induction vs generalizing index ds with
  | nil =>
    obtain rfl := Except.ok.inj h
    exact List.forall_mem_nil _
  | cons v vs ih =>
    obtain ⟨hv, hrest⟩ := List.forall_mem_cons.mp hvs
    unfold readEntries at h
    split at h
    · rename_i d ds' hd hds
      cases h
      exact List.forall_mem_cons.mpr ⟨readEntry_sound hv hd, ih hrest hds⟩
    · cases h

theorem ofValue_sound {v : Value} (hv : Sound v) {doc : Document} (h : ofValue v = .ok doc) :
    ∀ d ∈ doc.nodes, Sound (.map d.params) := by
  unfold ofValue at h
  split at h
  · cases h
    exact List.forall_mem_nil _
  · rename_i vs
    cases hds : readEntries 0 vs with
    | error faults =>
      rw [hds] at h
      cases h
    | ok ds =>
      rw [hds] at h
      cases h
      exact readEntries_sound hv.items hds
  · rename_i fs
    dsimp only at h
    split at h
    · rename_i vs hvs
      cases hds : readEntries 0 vs with
      | error faults =>
        rw [hds] at h
        cases h
      | ok ds =>
        rw [hds] at h
        cases h
        exact readEntries_sound (hv.get? hvs).items hds
    · cases h
      exact List.forall_mem_nil _
    · cases h
    · cases h
  · cases h

theorem read_sound {source : String} {format : Format} {doc : Document}
    (h : read source format = .ok doc) : ∀ d ∈ doc.nodes, Sound (.map d.params) := by
  unfold read at h
  split at h
  · rename_i v hv
    exact ofValue_sound (Format.read_sound hv) h
  · cases h

end Document
end Flowline
