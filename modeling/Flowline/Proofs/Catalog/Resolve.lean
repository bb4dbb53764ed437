import Flowline.Catalog.Basic
import Mathlib.Data.List.Forall2
import Mathlib.Data.List.Nodup

/-!
# Types and their schemas

Custom types that are added replace none that are there. The resolver remembers its answers. Where
dependencies form no cycle they are those of `schemaOf`, which resolves every schema anew.
-/
namespace Flowline.Catalog

variable {type : String} {k : Contract}

theorem get?_register_of_ne {c : Catalog} (h : k.type ≠ type) :
    (c.register k).get? type = c.get? type := by
  have hfilter : (c.contracts.filter (·.type ≠ k.type)).find? (·.type == type) =
      c.contracts.find? (·.type == type) := by
    rw [List.find?_filter]
    refine congrArg (List.find? · c.contracts) (funext fun m => ?_)
    by_cases hm : m.type = type
    · simp [hm, h.symm]
    · simp [hm]
  rw [get?, register, List.find?_append, hfilter, get?]
  simp [h]

theorem get?_register_self (c : Catalog) (k : Contract) : (c.register k).get? k.type = some k := by
  have hfilter : (c.contracts.filter (·.type ≠ k.type)).find? (·.type == k.type) = none := by
    simp
  rw [get?, register, List.find?_append, hfilter, Option.none_or, List.find?_singleton,
    if_pos (beq_self_eq_true _)]

theorem registerCustom_empty (c : Catalog) : (c.registerCustom {}).1 = c := by
  simp [registerCustom, Registry.definitions]

theorem get?_registerCustom {c : Catalog} (r : Registry) (h : c.get? type = some k) :
    (c.registerCustom r).1.get? type = some k := by
  have hfold : ∀ (definitions : List CustomNode) (acc : Catalog × Nat),
      acc.1.get? type = some k → (definitions.foldl (fun acc d =>
        if acc.1.contains d.type then acc else (acc.1.register d.contract, acc.2 + 1)) acc).1.get?
          type = some k := by
    intro definitions
    induction definitions with
    | nil => exact fun _ h => h
    | cons d definitions ih =>
      intro acc h
      rw [List.foldl_cons]
      by_cases hd : acc.1.contains d.type = true
      · simp only [hd, if_true]
        exact ih acc h
      · have hne : d.contract.type ≠ type := by
          rintro rfl
          exact hd (Option.isSome_iff_exists.mpr ⟨k, h⟩)
        simp only [hd, Bool.false_eq_true, if_false]
        exact ih _ ((get?_register_of_ne hne).trans h)
  exact hfold r.definitions (c, 0) h

/-- The custom types of a registry come in addition to the types that are there. -/
theorem of_get?_registerCustom {c : Catalog} (r : Registry)
    (h : (c.registerCustom r).1.get? type = some k) :
    c.get? type = some k ∨ c.contains type = false ∧ ∃ d : CustomNode, k = d.contract := by
  have hfold : ∀ (definitions : List CustomNode) (acc : Catalog × Nat),
      (definitions.foldl (fun acc d =>
        if acc.1.contains d.type then acc else (acc.1.register d.contract, acc.2 + 1)) acc).1.get?
          type = some k →
      acc.1.get? type = some k ∨ acc.1.contains type = false ∧ ∃ d : CustomNode, k = d.contract := by
    intro definitions
    induction definitions with
    | nil => exact fun _ h => Or.inl h
    | cons d definitions ih =>
      intro acc h
      rw [List.foldl_cons] at h
      by_cases hd : acc.1.contains d.type = true
      · simp only [hd, if_true] at h
        exact ih acc h
      · simp only [hd, Bool.false_eq_true, if_false] at h
        by_cases htype : d.contract.type = type
        · subst htype
          have hk := (get?_register_self acc.1 d.contract).symm.trans <|
            (ih _ h).resolve_right fun hnone => by
              simp [contains, get?_register_self] at hnone
          exact Or.inr ⟨Bool.eq_false_iff.mpr hd, d, (Option.some.inj hk).symm⟩
        · have hrest := ih _ h
          rw [contains, get?_register_of_ne htype] at hrest
          exact hrest
  exact hfold r.definitions (c, 0) h

theorem builtin_contracts : builtin.contracts = Builtin.contracts := rfl

theorem get?_builtin_inlineData : builtin.get? "InlineDataNode" = some Builtin.inlineData := rfl

theorem get?_builtin_indicator : builtin.get? "IndicatorNode" = some Builtin.indicator := rfl

theorem get?_builtin_aggregate : builtin.get? "AggregateNode" = some Builtin.aggregate := rfl

end Flowline.Catalog

namespace Flowline

/-! ### Computations that keep a property of their state -/

/-- In states with `i` the computation comes to a value with `p`, and again to a state with `i`. -/
def Yields {σ α : Type} (i : σ → Prop) (x : StateM σ α) (p : α → Prop) : Prop :=
  ∀ s, i s → p (x.run s).1 ∧ i (x.run s).2

namespace Yields

variable {σ α β : Type} {i : σ → Prop}

theorem pure {p : α → Prop} {a : α} (h : p a) : Yields i (Pure.pure a) p := fun _ hs => ⟨h, hs⟩

theorem bind {x : StateM σ α} {f : α → StateM σ β} {p : α → Prop} {q : β → Prop} (hx : Yields i x p)
    (hf : ∀ a, p a → Yields i (f a) q) : Yields i (x >>= f) q := by
  intro s hs
  obtain ⟨ha, hi⟩ := hx s hs
  exact hf _ ha _ hi

theorem map {x : StateM σ α} {f : α → β} {p : α → Prop} {q : β → Prop} (hx : Yields i x p)
    (hf : ∀ a, p a → q (f a)) : Yields i (f <$> x) q := by
  intro s hs
  obtain ⟨ha, hi⟩ := hx s hs
  exact ⟨hf _ ha, hi⟩

theorem get : Yields i (MonadState.get : StateM σ σ) i := fun _ hs => ⟨hs, hs⟩

theorem modify {f : σ → σ} (hf : ∀ s, i s → i (f s)) :
    Yields i (modifyGet fun s => (PUnit.unit, f s) : StateM σ PUnit) fun _ => True :=
  fun s hs => ⟨trivial, hf s hs⟩

theorem mapM {f : α → StateM σ β} {r : α → β → Prop} {l : List α}
    (h : ∀ a ∈ l, Yields i (f a) (r a)) :
    Yields i (l.mapM f) (List.Forall₂ r l) := by
  induction l with
  | nil => exact pure .nil
  | cons a l ih =>
    rw [List.mapM_cons]
    refine bind (h a List.mem_cons_self) fun b hb => ?_
    refine bind (ih fun c hc => h c (List.mem_cons_of_mem _ hc)) fun bs hbs => ?_
    exact pure (.cons hb hbs)

theorem mapM_eq {f : α → StateM σ β} {g : α → β} {l : List α}
    (h : ∀ a ∈ l, Yields i (f a) (· = g a)) : Yields i (l.mapM f) (· = l.map g) := by
  intro s hs
  obtain ⟨hresults, hi⟩ := mapM h s hs
  refine ⟨?_, hi⟩
  clear h hi
  generalize ((l.mapM f).run s).1 = results at hresults
  induction hresults with
  | nil => rfl
  | cons hb _ ih => rw [hb, ih, List.map_cons]

theorem foldlM {f : β → α → StateM σ β} {g : β → α → β} {l : List α}
    (h : ∀ b, ∀ a ∈ l, Yields i (f b a) (· = g b a)) (b : β) :
    Yields i (l.foldlM f b) (· = l.foldl g b) := by
  induction l generalizing b with
  | nil => exact pure rfl
  | cons a l ih =>
    rw [List.foldlM_cons]
    refine bind (h b a List.mem_cons_self) fun c hc => ?_
    rw [hc]
    exact ih (fun b c hc => h b c (List.mem_cons_of_mem _ hc)) _

end Yields

/-! ### Schemas without memory -/

/-- Dependencies lead downwards, over no more steps than there are nodes. -/
structure Ranked (nodes : List Declaration) (rank : String → Nat) : Prop where
  bounded : ∀ id, rank id ≤ nodes.length
  descends : ∀ n ∈ nodes, ∀ d ∈ n.dependencies, rank d < rank n.id

/-- The last declaration of an id together with the contract of its type. -/
def Catalog.declared? (catalog : Catalog) (nodes : List Declaration) (id : String) :
    Option (Declaration × Contract) :=
  (nodes.reverse.find? (·.id == id)).bind fun n => (catalog.get? n.type).map fun c => (n, c)

/-- The schema of a declaration when its dependencies have the schemas of `s`. -/
def Contract.schema (c : Contract) (n : Declaration) (s : String → Schema) : Schema :=
  let own := c.output n.params
  if own.inheritsInputs then
    let inherited := n.dependencies.foldl (fun acc d => Resolver.inherit acc (s d)) ([], own.isOpen)
    ⟨own.shape, Resolver.addColumns inherited.1 own.columns, false, inherited.2⟩
  else own

theorem Contract.schema_congr {c : Contract} {n : Declaration} {s t : String → Schema}
    (h : ∀ d ∈ n.dependencies, s d = t d) : c.schema n s = c.schema n t := by
  have hfold : ∀ acc, n.dependencies.foldl (fun acc d => Resolver.inherit acc (s d)) acc =
      n.dependencies.foldl (fun acc d => Resolver.inherit acc (t d)) acc :=
    fun acc => List.foldl_ext _ _ acc fun b d hd => by rw [h d hd]
  simp only [Contract.schema, hfold]

namespace Catalog

variable {catalog : Catalog} {nodes : List Declaration} {rank : String → Nat}

/-- The schema of a node, looked at to a depth. -/
def schemaAt (catalog : Catalog) (nodes : List Declaration) : Nat → String → Schema
  | 0, _ => .unknown .any
  | depth + 1, id => match catalog.declared? nodes id with
    | none => .unknown .any
    | some (n, c) => c.schema n (schemaAt catalog nodes depth)

def schemaOf (catalog : Catalog) (nodes : List Declaration) (id : String) : Schema :=
  schemaAt catalog nodes (nodes.length + 1) id

theorem declared?_mem {id : String} {n : Declaration} {c : Contract}
    (h : catalog.declared? nodes id = some (n, c)) :
    n ∈ nodes ∧ n.id = id ∧ catalog.get? n.type = some c := by
  obtain ⟨m, hm, hc⟩ := Option.bind_eq_some_iff.mp h
  obtain ⟨k, hk, heq⟩ := Option.map_eq_some_iff.mp hc
  cases heq
  exact ⟨List.mem_reverse.mp (List.mem_of_find?_eq_some hm), by simpa using List.find?_some hm, hk⟩

theorem find?_eq (hids : (nodes.map (·.id)).Nodup) {n : Declaration} (hn : n ∈ nodes) :
    nodes.reverse.find? (·.id == n.id) = some n := by
  cases hf : nodes.reverse.find? (·.id == n.id) with
  | none => simpa using List.find?_eq_none.mp hf n (List.mem_reverse.mpr hn)
  | some m =>
    have hid : m.id = n.id := by simpa using List.find?_some hf
    rw [List.inj_on_of_nodup_map hids (List.mem_reverse.mp (List.mem_of_find?_eq_some hf)) hn hid]

theorem declared?_eq (catalog : Catalog) (hids : (nodes.map (·.id)).Nodup) {n : Declaration}
    (hn : n ∈ nodes) :
    catalog.declared? nodes n.id = (catalog.get? n.type).map fun c => (n, c) := by
  rw [declared?, find?_eq hids hn, Option.bind_some]

theorem schemaAt_eq_schemaAt (hr : Ranked nodes rank) {k l : Nat} {id : String} (hk : rank id < k)
    (hl : rank id < l) : schemaAt catalog nodes k id = schemaAt catalog nodes l id := by
  induction k generalizing l id with
  | zero => exact absurd hk (Nat.not_lt_zero _)
  | succ k ih =>
    cases l with
    | zero => exact absurd hl (Nat.not_lt_zero _)
    | succ l =>
      unfold schemaAt
      cases hd : catalog.declared? nodes id with
      | none => rfl
      | some p =>
        obtain ⟨n, c⟩ := p
        obtain ⟨hn, rfl, -⟩ := declared?_mem hd
        refine Contract.schema_congr fun d hdep => ?_
        have hlower := hr.descends n hn d hdep
        exact ih (by omega) (by omega)

/-- The schema of a node follows from those of its dependencies. -/
theorem schemaOf_eq (hr : Ranked nodes rank) {id : String} {n : Declaration} {c : Contract}
    (h : catalog.declared? nodes id = some (n, c)) :
    schemaOf catalog nodes id = c.schema n (schemaOf catalog nodes) := by
  obtain ⟨hn, rfl, -⟩ := declared?_mem h
  rw [schemaOf, schemaAt, h]
  refine Contract.schema_congr fun d hdep => ?_
  have hlower := hr.descends n hn d hdep
  have hbound := hr.bounded n.id
  exact schemaAt_eq_schemaAt hr (by omega) (by omega)

theorem schemaOf_eq_unknown {id : String} (h : catalog.declared? nodes id = none) :
    schemaOf catalog nodes id = .unknown .any := by
  rw [schemaOf, schemaAt, h]

end Catalog

/-! ### The resolver -/

namespace Resolver

variable {catalog : Catalog} {nodes : List Declaration} {rank : String → Nat}

/-- What a resolver remembers are the schemas of its nodes. -/
structure Remembers (catalog : Catalog) (nodes : List Declaration) (r : Resolver) : Prop where
  sameCatalog : r.catalog = catalog
  sameNodes : r.nodes = nodes
  known : ∀ id s, r.known.lookup id = some s → s = catalog.schemaOf nodes id

theorem remembers_initial (catalog : Catalog) (nodes : List Declaration) :
    Remembers catalog nodes { catalog, nodes } := ⟨rfl, rfl, by simp⟩

theorem Remembers.add {r : Resolver} (h : Remembers catalog nodes r) (id : String) :
    Remembers catalog nodes { r with known := (id, catalog.schemaOf nodes id) :: r.known } where
  sameCatalog := h.sameCatalog
  sameNodes := h.sameNodes
  known key s hs := by
    rw [List.lookup_cons] at hs
    split at hs
    · rename_i hkey
      rw [eq_of_beq hkey]
      exact (Option.some.inj hs).symm
    · exact h.known key s hs

theorem remember_yields {id : String} {s : Schema} (h : s = catalog.schemaOf nodes id) :
    Yields (Remembers catalog nodes)
      (do modify fun r => { r with known := (id, s) :: r.known }; return s)
      (· = catalog.schemaOf nodes id) := by
  subst h
  exact .bind (.modify fun r hr => hr.add id) fun _ _ => .pure rfl

/-- Resolving a node whose dependencies form no cycle, on the way from nodes of higher rank. -/
theorem resolveAt_yields (hr : Ranked nodes rank) {fuel : Nat} {visiting : List String}
    {id : String} (hfuel : rank id < fuel) (hvisiting : ∀ v ∈ visiting, rank id < rank v) :
    Yields (Remembers catalog nodes) (resolveAt fuel visiting id)
      (· = catalog.schemaOf nodes id) := by
  induction fuel generalizing visiting id with
  | zero => exact absurd hfuel (Nat.not_lt_zero _)
  | succ fuel ih =>
    unfold resolveAt
    refine .bind .get fun r hrem => ?_
    cases hknown : r.known.lookup id with
    | some s => exact .pure (hrem.known id s hknown)
    | none =>
      have hdecl : ((r.node? id).bind fun n => (r.catalog.get? n.type).map fun c => (n, c)) =
          catalog.declared? nodes id := by
        rw [node?, hrem.sameCatalog, hrem.sameNodes, Catalog.declared?]
      dsimp only
      rw [hdecl]
      cases hd : catalog.declared? nodes id with
      | none => exact .pure (Catalog.schemaOf_eq_unknown hd).symm
      | some p =>
        obtain ⟨n, c⟩ := p
        obtain ⟨hn, rfl, -⟩ := Catalog.declared?_mem hd
        have hschema := Catalog.schemaOf_eq hr hd
        have hnew : ¬ visiting.contains n.id = true := fun h =>
          Nat.lt_irrefl _ (hvisiting n.id (by simpa using h))
        dsimp only
        rw [if_neg hnew]
        unfold Contract.schema at hschema
        dsimp only at hschema ⊢
        split at hschema
        · rename_i hinherits
          rw [if_pos hinherits]
          refine .bind (.foldlM (g := fun acc d => inherit acc (catalog.schemaOf nodes d))
            (fun acc d hdep => ?_) _) fun inherited h => ?_
          · have hlower := hr.descends n hn d hdep
            refine .bind (ih (by omega) fun v hv => ?_) fun s hs => .pure (by rw [hs])
            rcases List.mem_cons.mp hv with rfl | hv
            · exact hlower
            · exact Nat.lt_trans hlower (hvisiting v hv)
          · rw [h]
            exact remember_yields hschema.symm
        · rename_i hinherits
          rw [if_neg hinherits]
          exact remember_yields hschema.symm

theorem resolve_yields (hr : Ranked nodes rank) (id : String) :
    Yields (Remembers catalog nodes) (resolve id) (· = catalog.schemaOf nodes id) := by
  refine .bind .get fun r hrem => resolveAt_yields hr ?_ (by simp)
  rw [hrem.sameNodes]
  exact Nat.lt_succ_of_le (hr.bounded id)

theorem resolveAll_yields (hr : Ranked nodes rank) (ids : List String) :
    Yields (Remembers catalog nodes) (resolveAll ids) (· = ids.map (catalog.schemaOf nodes)) :=
  .mapM_eq fun id _ => resolve_yields hr id

end Resolver
end Flowline
