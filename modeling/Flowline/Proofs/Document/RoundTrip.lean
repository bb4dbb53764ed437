import Flowline.Proofs.Document.Grammar

/-!
# Documents in data

A document is read back from its own value exactly if no type of its nodes is blank, which reading
makes sure of. So whatever was read as a document, under whatever names and with whatever numbers
for titles, has a value that is read as the same document.
-/
namespace Flowline.Document

/-! ### Nodes -/

theorem dependencyField_toValue (n : Declaration) :
    dependencyField n.toValue = some (.list (n.dependsOn.map .str)) := by
  have habsent : n.toValue.get? "depends_on" = none := rfl
  rw [dependencyField, habsent, Option.none_or]
  rfl

theorem paramsField_toValue (n : Declaration) : paramsField n.toValue = some (.map n.params) := by
  have habsent : n.toValue.get? "params" = none := rfl
  rw [paramsField, habsent, Option.none_or]
  rfl

/-- The value of a node is an entry for it, unless its type is blank. -/
theorem describes_toValue_iff {n : Declaration} :
    Describes n.toValue n ↔ Text.allBlank n.type = false where
  mp h := h.notBlank
  mpr h := {
    id := rfl
    type := rfl
    notBlank := h
    params := paramsField_toValue n
    dependsOn := dependencyField_toValue n ▸ .ids n.dependsOn }

theorem readEntries_toValue_iff {nodes : List Declaration} :
    readEntries 0 (nodes.map Declaration.toValue) = .ok nodes ↔
      ∀ n ∈ nodes, Text.allBlank n.type = false := by
  rw [readEntries_eq_ok_iff, List.forall₂_map_left_iff, List.forall₂_same]
  exact forall₂_congr fun n _ => describes_toValue_iff

/-! ### Titles -/

/-- A title that is not given is written as null, and one that is given as a text. -/
theorem title?_ofStr? (title : Option String) : title? (some (.ofStr? title)) = title := by
  cases title <;> rfl

/-! ### Documents -/

variable {doc : Document}

/-- Of the value of a document the titles are read as they are. -/
theorem ofValue_toValue (doc : Document) : ofValue doc.toValue =
    (readEntries 0 (doc.nodes.map Declaration.toValue)).map fun nodes => { doc with nodes } := by
  have hnodes : Fields.get? [("id", .ofStr? doc.id), ("name", .ofStr? doc.name),
      ("description", .ofStr? doc.description), ("version", .ofStr? doc.version),
      ("nodes", .list (doc.nodes.map Declaration.toValue))] "nodes" =
        some (.list (doc.nodes.map Declaration.toValue)) := rfl
  simp only [toValue, ofValue, hnodes]
  refine congrArg (Except.map · _) (funext fun nodes => ?_)
  rw [mk.injEq]
  exact ⟨title?_ofStr? _, title?_ofStr? _, title?_ofStr? _, title?_ofStr? _, rfl⟩

/-- A document is read back from its own value exactly if no type of its nodes is blank. -/
theorem ofValue_toValue_iff :
    ofValue doc.toValue = .ok doc ↔ ∀ n ∈ doc.nodes, Text.allBlank n.type = false := by
  rw [ofValue_toValue, ← readEntries_toValue_iff]
  cases readEntries 0 (doc.nodes.map Declaration.toValue) with
  | error ds => exact ⟨nofun, nofun⟩
  | ok nodes =>
    change Except.ok _ = Except.ok doc ↔ _
    rw [Except.ok.injEq, Except.ok.injEq]
    constructor
    · intro h
      exact congrArg Document.nodes h
    · rintro rfl
      rfl

/-- What was read has no blank types. -/
theorem notBlank_of_ofValue {v : Value} (h : ofValue v = .ok doc) :
    ∀ n ∈ doc.nodes, Text.allBlank n.type = false := by
  obtain ⟨entries, -, hdescribes⟩ := exists_ofValue_iff.mp ⟨doc, h, rfl⟩
  intro n hn
  obtain ⟨i, hi, rfl⟩ := List.getElem_of_mem hn
  exact (hdescribes.get (hdescribes.length_eq ▸ hi) hi).notBlank

/-- Whatever was read as a document is read back from its own value. -/
theorem reads_back {v : Value} (h : ofValue v = .ok doc) : ofValue doc.toValue = .ok doc :=
  ofValue_toValue_iff.mpr (notBlank_of_ofValue h)

/-- Numbers for titles, the other names of the fields, a repeated dependency and no null. -/
def numbered : Value :=
  .map [("version", .int 2), ("id", .int 7), ("nodes", .list [
    .map [("type", .str "InlineDataNode"), ("id", .str "a"),
      ("params", .map [("rows", .list []), ("label", .null)])],
    .map [("id", .str "b"), ("depends_on", .list [.str "a", .str "a"]),
      ("parameters", .map [("period", .int 3), ("indicator", .str "SMA")]),
      ("type", .str "IndicatorNode")]])]

theorem numbered_reads_back : ∃ doc, ofValue numbered = .ok doc ∧
    doc.id = some "7" ∧ doc.version = some "2" ∧
    doc.nodes.map (·.dependsOn) = [[], ["a", "a"]] ∧
    doc.nodes.map (·.params.keys) = [["rows", "label"], ["period", "indicator"]] ∧
    ofValue doc.toValue = .ok doc := by
  obtain ⟨doc, h⟩ : ∃ doc, ofValue numbered = .ok doc := ⟨_, rfl⟩
  refine ⟨doc, h, ?_, ?_, ?_, ?_, reads_back h⟩
  all_goals
    cases h
    decide

end Flowline.Document
