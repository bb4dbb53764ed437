import Flowline.Proofs.Catalog.Resolve
import Flowline.Proofs.Document.Distinct
import Flowline.Proofs.Graph.Order

/-!
# Schemas by recursion

`Catalog.Derives` says what schema an id has by recursion on the dependencies, with no resolver in
it. Where the dependencies of a document form no cycle a resolver answers with just that schema,
whatever it was asked before.
-/
namespace Flowline

/-! ### What is inherited -/

namespace Schema

/-- The columns that the output hands on to a node that inherits its inputs. -/
def handedOn (s : Schema) : List String :=
  if s.shape = .dataframe ∨ s.shape = .signals ∨ s.shape = .any then s.columns else []

/-- The output of a node that inherits its inputs: their columns, each once, and then its own. -/
def inheriting (own : Schema) (inputs : List Schema) : Schema where
  shape := own.shape
  columns := distinct (inputs.flatMap handedOn ++ own.columns)
  inheritsInputs := false
  isOpen := own.isOpen || inputs.any isOpen

end Schema

namespace Resolver

theorem addColumns_distinct (l more : List String) :
    addColumns (distinct l) more = distinct (l ++ more) := by
  induction more generalizing l with
  | nil => rw [List.append_nil]; rfl
  | cons c more ih =>
    have hstep : addColumns (distinct l) (c :: more) =
        addColumns (if c ∈ l then distinct l else distinct l ++ [c]) more := by
      simp [addColumns]
    rw [hstep, ← distinct_concat, ih, List.append_assoc, List.singleton_append]

theorem inherit_distinct (l : List String) (isOpen : Bool) (s : Schema) :
    inherit (distinct l, isOpen) s = (distinct (l ++ s.handedOn), isOpen || s.isOpen) := by
  have hpasses : (s.shape.isTabular || s.shape == .any) = true ↔
      s.shape = .dataframe ∨ s.shape = .signals ∨ s.shape = .any := by
    cases s.shape <;> simp [Shape.isTabular]
  unfold inherit Schema.handedOn
  by_cases h : (s.shape.isTabular || s.shape == .any) = true
  · rw [if_pos h, if_pos (hpasses.mp h), addColumns_distinct]
  · rw [if_neg h, if_neg fun hs => h (hpasses.mpr hs), List.append_nil]

theorem foldl_inherit (l : List String) (isOpen : Bool) (inputs : List Schema) :
    inputs.foldl inherit (distinct l, isOpen) =
      (distinct (l ++ inputs.flatMap Schema.handedOn), isOpen || inputs.any Schema.isOpen) := by
  induction inputs generalizing l isOpen with
  | nil => simp
  | cons s inputs ih =>
    rw [List.foldl_cons, inherit_distinct, ih, List.flatMap_cons, List.any_cons, List.append_assoc,
      Bool.or_assoc]

/-- What a resolver puts together for a node that inherits its inputs. -/
theorem inheriting_eq (own : Schema) (inputs : List Schema) :
    (⟨own.shape, addColumns (inputs.foldl inherit ([], own.isOpen)).1 own.columns, false,
      (inputs.foldl inherit ([], own.isOpen)).2⟩ : Schema) = own.inheriting inputs := by
  have hfold := foldl_inherit [] own.isOpen inputs
  rw [show distinct ([] : List String) = [] from rfl, List.nil_append] at hfold
  rw [hfold, addColumns_distinct]
  rfl

end Resolver

theorem Contract.schema_eq (c : Contract) (n : Declaration) (s : String → Schema) :
    c.schema n s = if (c.output n.params).inheritsInputs = true
      then (c.output n.params).inheriting (n.dependencies.map s) else c.output n.params := by
  unfold Contract.schema
  dsimp only
  rw [← Resolver.inheriting_eq, List.foldl_map]

/-! ### The recursion -/

/-- The schema of an id: unknown where the id or its type is; what its type says, where the type
inherits nothing; or else put together from the schemas of the dependencies. -/
inductive Catalog.Derives (catalog : Catalog) (nodes : List Declaration) : String → Schema → Prop
  | unknownId {id : String} (h : ∀ n ∈ nodes, n.id ≠ id) : Derives catalog nodes id (.unknown .any)
  | unknownType {n : Declaration} (hn : n ∈ nodes) (hc : catalog.get? n.type = none) :
      Derives catalog nodes n.id (.unknown .any)
  | own {n : Declaration} {c : Contract} (hn : n ∈ nodes) (hc : catalog.get? n.type = some c)
      (hi : (c.output n.params).inheritsInputs = false) :
      Derives catalog nodes n.id (c.output n.params)
  | inherited {n : Declaration} {c : Contract} (s : String → Schema) (hn : n ∈ nodes)
      (hc : catalog.get? n.type = some c) (hi : (c.output n.params).inheritsInputs = true)
      (hdeps : ∀ d ∈ n.dependencies, Derives catalog nodes d (s d)) :
      Derives catalog nodes n.id ((c.output n.params).inheriting (n.dependencies.map s))

namespace Catalog

variable {catalog : Catalog} {nodes : List Declaration} {rank : String → Nat}

/-- Without cycles the place in a topological order is a rank; unknown ids stand lowest. -/
theorem exists_ranked (h : (Graph.ofDeclarations nodes).Acyclic) :
    ∃ rank, Ranked nodes rank := by
  have hg := Graph.wellFormed_ofDeclarations nodes
  have horder := Graph.takenOrder_topological hg h
  generalize (Graph.ofDeclarations nodes).takenOrder = order at horder
  have hmem : ∀ id, id ∈ order ↔ ∃ n ∈ nodes, n.id = id := fun id => by
    rw [horder.mem_iff, Graph.ofDeclarations, Graph.ofParts, mem_distinct, List.mem_map]
  have hlength : order.length ≤ nodes.length := by
    rw [(horder.perm hg).length_eq]
    exact (distinct_sublist _).length_le.trans_eq (List.length_map _)
  refine ⟨fun id => if id ∈ order then order.idxOf id + 1 else 0, fun id => ?_, fun n hn d hd => ?_⟩
  · split
    · rename_i hid
      exact (List.idxOf_lt_length_iff.mpr hid).trans_le hlength
    · exact Nat.zero_le _
  · have hnode : n.id ∈ order := (hmem n.id).mpr ⟨n, hn, rfl⟩
    rw [if_pos hnode]
    split
    · rename_i hdep
      obtain ⟨m, hm, rfl⟩ := (hmem d).mp hdep
      have hleads : (Graph.ofDeclarations nodes).Leads m.id n.id := Graph.leads_ofParts.mpr
        ⟨List.mem_flatMap.mpr ⟨n, hn, List.mem_map_of_mem hd⟩, List.mem_map_of_mem hm,
          List.mem_map_of_mem hn⟩
      exact Nat.succ_lt_succ (horder.forward _ _ hleads)
    · exact Nat.succ_pos _

/-- The recursion has no other outcome than the schema that is computed to sufficient depth. -/
theorem Derives.eq_schemaOf (hr : Ranked nodes rank) (hids : (nodes.map (·.id)).Nodup) {id : String}
    {s : Schema} (h : catalog.Derives nodes id s) : s = catalog.schemaOf nodes id := by
  induction h with
  | unknownId h =>
    refine (schemaOf_eq_unknown ?_).symm
    rw [declared?, List.find?_eq_none.mpr (by simpa using h), Option.bind_none]
  | unknownType hn hc =>
    refine (schemaOf_eq_unknown ?_).symm
    rw [catalog.declared?_eq hids hn, hc, Option.map_none]
  | own hn hc hi =>
    have hdecl := catalog.declared?_eq hids hn
    rw [hc, Option.map_some] at hdecl
    rw [schemaOf_eq hr hdecl, Contract.schema_eq, if_neg (by simp [hi])]
  | inherited s hn hc hi hdeps ih =>
    have hdecl := catalog.declared?_eq hids hn
    rw [hc, Option.map_some] at hdecl
    rw [schemaOf_eq hr hdecl, Contract.schema_eq, if_pos hi, List.map_congr_left ih]

/-- Without cycles the recursion comes to a schema for every id. -/
theorem derives_schemaOf (hr : Ranked nodes rank) (hids : (nodes.map (·.id)).Nodup) (id : String) :
    catalog.Derives nodes id (catalog.schemaOf nodes id) := by
  generalize hk : rank id = k
  induction k using Nat.strongRecOn generalizing id with
  | ind k ih =>
    by_cases hid : ∃ n ∈ nodes, n.id = id
    · obtain ⟨n, hn, rfl⟩ := hid
      have hdecl := catalog.declared?_eq hids hn
      cases hc : catalog.get? n.type with
      | none =>
        rw [hc, Option.map_none] at hdecl
        exact schemaOf_eq_unknown hdecl ▸ .unknownType hn hc
      | some c =>
        rw [hc, Option.map_some] at hdecl
        rw [schemaOf_eq hr hdecl, Contract.schema_eq]
        split
        · rename_i hi
          exact .inherited _ hn hc hi fun d hd => ih _ (hk ▸ hr.descends n hn d hd) d rfl
        · rename_i hi
          exact .own hn hc (Bool.eq_false_iff.mpr hi)
    · have hunknown : ∀ n ∈ nodes, n.id ≠ id := fun n hn heq => hid ⟨n, hn, heq⟩
      have hdecl : catalog.declared? nodes id = none := by
        rw [declared?, List.find?_eq_none.mpr (by simpa using hunknown), Option.bind_none]
      exact schemaOf_eq_unknown hdecl ▸ .unknownId hunknown

end Catalog

/-- What a resolver of the document answers for an id after it was asked for others. -/
def Resolver.answer (catalog : Catalog) (doc : Document) (asked : List String) (id : String) :
    Schema :=
  ((resolveAll asked >>= fun _ => resolve id).run { catalog, nodes := doc.nodes }).1

/-- Where ids are distinct and dependencies form no cycle, a resolver answers with the one schema
that the recursion comes to, whatever it was asked before. -/
theorem Resolver.answer_derives (catalog : Catalog) {doc : Document}
    (hids : (doc.nodes.map (·.id)).Nodup) (hacyclic : (Graph.ofDeclarations doc.nodes).Acyclic)
    (asked : List String) (id : String) (s : Schema) :
    catalog.Derives doc.nodes id s ↔ s = Resolver.answer catalog doc asked id := by
  obtain ⟨rank, hr⟩ := Catalog.exists_ranked hacyclic
  have hyields : Yields (Remembers catalog doc.nodes) (resolveAll asked >>= fun _ => resolve id)
      (· = catalog.schemaOf doc.nodes id) :=
    (resolveAll_yields hr asked).bind fun _ _ => resolve_yields hr id
  have hanswer : Resolver.answer catalog doc asked id = catalog.schemaOf doc.nodes id :=
    (hyields _ (remembers_initial catalog doc.nodes)).1
  rw [hanswer]
  constructor
  · exact fun h => h.eq_schemaOf hr hids
  · rintro rfl
    exact Catalog.derives_schemaOf hr hids id

/-- Two averages in a row behind records. -/
def averagesDocument : Document where
  nodes := [⟨"slow", "IndicatorNode", [("indicator", .str "SMA"), ("period", .int 30)], ["fast"]⟩,
    ⟨"load", "InlineDataNode",
      [("rows", .list [.map [("close", .int 1), ("volume", .int 2)]])], []⟩,
    ⟨"fast", "IndicatorNode", [("indicator", .str "SMA"), ("period", .int 10)], ["load"]⟩]

theorem averagesDocument_answer : (averagesDocument.nodes.map (·.id)).Nodup ∧
    (Graph.ofDeclarations averagesDocument.nodes).Acyclic ∧
    Catalog.builtin.Derives averagesDocument.nodes "slow"
      ⟨.dataframe, ["close", "volume", "SMA_10", "SMA_30"], false, false⟩ := by
  have hids : (averagesDocument.nodes.map (·.id)).Nodup := by decide
  have hacyclic : (Graph.ofDeclarations averagesDocument.nodes).Acyclic :=
    Graph.findCycle_eq_none_iff.mp (by decide +kernel)
  exact ⟨hids, hacyclic,
    (Resolver.answer_derives Catalog.builtin hids hacyclic ["fast", "none"] "slow" _).mpr
      (by decide +kernel)⟩

end Flowline
