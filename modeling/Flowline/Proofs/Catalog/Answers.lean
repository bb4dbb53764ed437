import Flowline.Proofs.Catalog.Derived
import Mathlib.Logic.Relation

/-!
# Answers of a resolver

`Resolver.Answers` has a rule for each way in which a call can go; a call without an end has no
derivation. Every call has one, for any document, and along it all that is remembered of a node that
inherits from itself is open.
-/
namespace Flowline

namespace Resolver

variable {catalog : Catalog} {nodes : List Declaration} {visiting : List String}

def remember (r : Resolver) (id : String) (s : Schema) : Resolver :=
  { r with known := (id, s) :: r.known }

/-- Asked for ids one after the other, on the way from the nodes of `visiting`, the resolver answers
with schemas and is another one then. -/
inductive Answers : List String → Resolver → List String → List Schema → Resolver → Prop
  | nil (visiting : List String) (r : Resolver) : Answers visiting r [] [] r
  | append {visiting ids ids' : List String} {answers answers' : List Schema}
      {r r₁ r' : Resolver} (first : Answers visiting r ids answers r₁)
      (later : Answers visiting r₁ ids' answers' r') :
      Answers visiting r (ids ++ ids') (answers ++ answers') r'
  | remembered {visiting : List String} {r : Resolver} {id : String} {s : Schema}
      (hknown : r.known.lookup id = some s) : Answers visiting r [id] [s] r
  /-- The id is not declared with a known type, or the call for it has not come to its end. -/
  | unknown {visiting : List String} {r : Resolver} {id : String}
      (hnew : r.known.lookup id = none)
      (h : r.catalog.declared? r.nodes id = none ∨ id ∈ visiting) :
      Answers visiting r [id] [.unknown .any] r
  | own {visiting : List String} {r : Resolver} {id : String} {n : Declaration} {c : Contract}
      (hnew : r.known.lookup id = none) (hvisiting : id ∉ visiting)
      (hdecl : r.catalog.declared? r.nodes id = some (n, c))
      (hi : (c.output n.params).inheritsInputs = false) :
      Answers visiting r [id] [c.output n.params] (r.remember id (c.output n.params))
  | inherited {visiting : List String} {r r₁ : Resolver} {id : String} {n : Declaration}
      {c : Contract} {inputs : List Schema} (hnew : r.known.lookup id = none)
      (hvisiting : id ∉ visiting) (hdecl : r.catalog.declared? r.nodes id = some (n, c))
      (hi : (c.output n.params).inheritsInputs = true)
      (h : Answers (id :: visiting) r n.dependencies inputs r₁) :
      Answers visiting r [id] [(c.output n.params).inheriting inputs]
        (r₁.remember id ((c.output n.params).inheriting inputs))

/-! ### Every call ends -/

theorem foldlM_inherit {m : Type → Type} [Monad m] [LawfulMonad m] (f : String → m Schema)
    (ids : List String) (acc : List String × Bool) :
    ids.foldlM (fun acc d => do return inherit acc (← f d)) acc =
      (List.foldl inherit acc ·) <$> ids.mapM f := by
  induction ids generalizing acc with
  | nil => simp
  | cons d ids ih =>
    simp only [List.foldlM_cons, List.mapM_cons, bind_assoc, pure_bind, ih, map_bind, map_pure,
      List.foldl_cons]
    exact bind_congr fun s => map_eq_pure_bind _ _

/-- One call, the calls for its dependencies taken as they are. -/
theorem run_resolveAt (fuel : Nat) (visiting : List String) (id : String) (r : Resolver) :
    (resolveAt (fuel + 1) visiting id).run r =
      match r.known.lookup id, r.catalog.declared? r.nodes id with
      | some s, _ => (s, r)
      | none, none => (.unknown .any, r)
      | none, some (n, c) =>
        if id ∈ visiting then (.unknown .any, r)
        else if (c.output n.params).inheritsInputs = true then
          let inputs := (n.dependencies.mapM (resolveAt fuel (id :: visiting))).run r
          let s := (c.output n.params).inheriting inputs.1
          (s, inputs.2.remember id s)
        else (c.output n.params, r.remember id (c.output n.params)) := by
  have hdeclared : ((r.node? id).bind fun n => (r.catalog.get? n.type).map fun c => (n, c)) =
      r.catalog.declared? r.nodes id := rfl
  unfold resolveAt
  simp only [foldlM_inherit, StateT.run_bind, StateT.run_get, pure_bind]
  cases r.known.lookup id with
  | some s => rfl
  | none =>
    simp only [hdeclared]
    cases r.catalog.declared? r.nodes id with
    | none => rfl
    | some p =>
      obtain ⟨n, c⟩ := p
      simp only [← inheriting_eq]
      by_cases hv : id ∈ visiting
      · rw [if_pos hv, if_pos (List.contains_iff_mem.mpr hv)]
        rfl
      · rw [if_neg hv, if_neg (mt List.contains_iff_mem.mp hv)]
        by_cases hi : (c.output n.params).inheritsInputs = true
        · rw [if_pos hi, if_pos hi]
          rfl
        · rw [if_neg hi, if_neg hi]
          rfl

/-- The nodes that are not being resolved. -/
def idle (nodes : List Declaration) (visiting : List String) : List Declaration :=
  nodes.filter fun n => n.id ∉ visiting

theorem idle_cons_lt {n : Declaration} (hn : n ∈ nodes) (hv : n.id ∉ visiting) :
    (idle nodes (n.id :: visiting)).length < (idle nodes visiting).length := by
  have hfilter : idle nodes (n.id :: visiting) =
      (idle nodes visiting).filter fun m => m.id ≠ n.id := by
    simp [idle, List.filter_filter]
  rw [hfilter, List.length_filter_lt_length_iff_exists]
  exact ⟨n, List.mem_filter.mpr ⟨hn, by simpa using hv⟩, by simp⟩

/-- A resolver keeps its catalog and its nodes. -/
theorem Answers.keeps {ids : List String} {answers : List Schema} {r r' : Resolver}
    (h : Answers visiting r ids answers r') : r'.catalog = r.catalog ∧ r'.nodes = r.nodes := by
  induction h with
  | nil | remembered | unknown | own => exact ⟨rfl, rfl⟩
  | append _ _ ih₁ ih₂ => exact ⟨ih₂.1.trans ih₁.1, ih₂.2.trans ih₁.2⟩
  | inherited _ _ _ _ _ ih => exact ih

theorem answers_mapM {call : String → StateM Resolver Schema} (hcall : ∀ id r, r.nodes = nodes →
      Answers visiting r [id] [((call id).run r).1] ((call id).run r).2)
    (ids : List String) {r : Resolver} (hr : r.nodes = nodes) :
    Answers visiting r ids ((ids.mapM call).run r).1 ((ids.mapM call).run r).2 := by
  induction ids generalizing r with
  | nil => exact .nil visiting r
  | cons id ids ih =>
    have hfirst := hcall id r hr
    rw [List.mapM_cons]
    exact hfirst.append (ih (hfirst.keeps.2.trans hr))

/-- With fuel for every node that is not being resolved a call comes to its end. The nodes on the
way are pairwise different, so that there are no more of them than nodes. -/
theorem answers_resolveAt {fuel : Nat} {visiting : List String}
    (hfuel : (idle nodes visiting).length < fuel) (id : String) {r : Resolver}
    (hr : r.nodes = nodes) : Answers visiting r [id] [((resolveAt fuel visiting id).run r).1]
      ((resolveAt fuel visiting id).run r).2 := by
  induction fuel generalizing visiting id r with
  | zero => exact absurd hfuel (Nat.not_lt_zero _)
  | succ fuel ih =>
    rw [run_resolveAt]
    cases hknown : r.known.lookup id with
    | some s => exact .remembered hknown
    | none =>
      cases hd : r.catalog.declared? r.nodes id with
      | none => exact .unknown hknown (.inl hd)
      | some p =>
        obtain ⟨n, c⟩ := p
        obtain ⟨hn, rfl, -⟩ := Catalog.declared?_mem hd
        dsimp only
        by_cases hv : n.id ∈ visiting
        · rw [if_pos hv]
          exact .unknown hknown (.inr hv)
        · rw [if_neg hv]
          have hless := idle_cons_lt (hr ▸ hn) hv
          split
          · rename_i hi
            exact .inherited hknown hv hd hi
              (answers_mapM (fun d _ hr => ih (by omega) d hr) n.dependencies hr)
          · rename_i hi
            exact .own hknown hv hd (Bool.eq_false_iff.mpr hi)

theorem answers_resolve (id : String) (r : Resolver) :
    Answers [] r [id] [((resolve id).run r).1] ((resolve id).run r).2 := by
  have hfuel : (idle r.nodes []).length < r.nodes.length + 1 :=
    Nat.lt_succ_of_le (List.length_filter_le _ _)
  exact answers_resolveAt hfuel id rfl

theorem answers_resolveAll (ids : List String) (r : Resolver) :
    Answers [] r ids ((resolveAll ids).run r).1 ((resolveAll ids).run r).2 :=
  answers_mapM (fun id r _ => answers_resolve id r) ids rfl

end Resolver

/-! ### Nodes that inherit from themselves -/

theorem exists_mem_zip {α β : Type} {p : α → β → Prop} {l : List α} {k : List β}
    (h : List.Forall₂ p l k) {a : α} (ha : a ∈ l) : ∃ b, (a, b) ∈ l.zip k ∧ p a b := by
  induction h with
  | nil => cases ha
  | cons hhead _ ih =>
    rcases List.mem_cons.mp ha with rfl | ha
    · exact ⟨_, List.mem_cons_self, hhead⟩
    · obtain ⟨b, hb, hab⟩ := ih ha
      exact ⟨b, List.mem_cons_of_mem _ hb, hab⟩

namespace Catalog

/-- The node of the id, of a known type, inherits its inputs, and the other one is among them. -/
def Inherits (catalog : Catalog) (nodes : List Declaration) (id input : String) : Prop :=
  ∃ n c, catalog.declared? nodes id = some (n, c) ∧ (c.output n.params).inheritsInputs = true ∧
    input ∈ n.dependencies

/-- The node inherits from one that lies on a cycle of nodes that inherit their inputs, or it lies
on such a cycle. -/
def Loops (catalog : Catalog) (nodes : List Declaration) (id : String) : Prop :=
  ∃ input, Relation.ReflTransGen (catalog.Inherits nodes) id input ∧
    Relation.TransGen (catalog.Inherits nodes) input input

variable {catalog : Catalog} {nodes : List Declaration} {id : String} {n : Declaration}
  {c : Contract}

/-- From such a node one comes to such a node again. -/
theorem Loops.exists_input (h : catalog.Loops nodes id) :
    ∃ input, catalog.Inherits nodes id input ∧ catalog.Loops nodes input := by
  obtain ⟨last, hway, hcycle⟩ := h
  rcases Relation.ReflTransGen.cases_head hway with rfl | ⟨next, hnext, hway⟩
  · obtain ⟨next, hnext, hback⟩ := Relation.TransGen.head'_iff.mp hcycle
    exact ⟨next, hnext, id, hback, hcycle⟩
  · exact ⟨next, hnext, last, hway, hcycle⟩

/-- What a resolver may say of an id. -/
structure Suits (catalog : Catalog) (nodes : List Declaration) (id : String) (s : Schema) :
    Prop where
  isOpen : catalog.Loops nodes id → s.isOpen = true
  shape : ∀ n c, catalog.declared? nodes id = some (n, c) → s.shape = (c.output n.params).shape

theorem Suits.own (hdecl : catalog.declared? nodes id = some (n, c))
    (hi : (c.output n.params).inheritsInputs = false) :
    catalog.Suits nodes id (c.output n.params) where
  isOpen h := by
    obtain ⟨_, ⟨m, k, hd, hinherits, -⟩, -⟩ := h.exists_input
    obtain ⟨rfl, rfl⟩ := Prod.mk.inj (Option.some.inj (hdecl.symm.trans hd))
    rw [hi] at hinherits
    cases hinherits
  shape m k hd := by
    obtain ⟨rfl, rfl⟩ := Prod.mk.inj (Option.some.inj (hdecl.symm.trans hd))
    rfl

/-- One open input is enough. -/
theorem Suits.inherited (hdecl : catalog.declared? nodes id = some (n, c))
    {inputs : List Schema} (hinputs : List.Forall₂ (fun input s => catalog.Loops nodes input →
      s.isOpen = true) n.dependencies inputs) :
    catalog.Suits nodes id ((c.output n.params).inheriting inputs) where
  isOpen h := by
    obtain ⟨input, ⟨m, k, hd, -, hdep⟩, hagain⟩ := h.exists_input
    obtain ⟨rfl, rfl⟩ := Prod.mk.inj (Option.some.inj (hdecl.symm.trans hd))
    obtain ⟨s, hs, hopen⟩ := exists_mem_zip hinputs hdep
    exact Bool.or_eq_true_iff.mpr
      (.inr (List.any_eq_true.mpr ⟨s, (List.of_mem_zip hs).2, hopen hagain⟩))
  shape m k hd := by
    obtain ⟨rfl, rfl⟩ := Prod.mk.inj (Option.some.inj (hdecl.symm.trans hd))
    rfl

end Catalog

namespace Resolver

variable {catalog : Catalog} {nodes : List Declaration} {visiting : List String}

/-- What a resolver of the nodes remembers may be said of them. -/
structure RemembersSuitable (catalog : Catalog) (nodes : List Declaration) (r : Resolver) :
    Prop where
  sameCatalog : r.catalog = catalog
  sameNodes : r.nodes = nodes
  known : ∀ id s, r.known.lookup id = some s → catalog.Suits nodes id s

theorem remembersSuitable_initial (catalog : Catalog) (nodes : List Declaration) :
    RemembersSuitable catalog nodes { catalog, nodes } := ⟨rfl, rfl, by simp⟩

theorem RemembersSuitable.remember {r : Resolver} (h : RemembersSuitable catalog nodes r)
    {id : String} {s : Schema} (hs : catalog.Suits nodes id s) :
    RemembersSuitable catalog nodes (r.remember id s) where
  sameCatalog := h.sameCatalog
  sameNodes := h.sameNodes
  known key t ht := by
    rw [Resolver.remember, List.lookup_cons] at ht
    split at ht
    · rename_i hkey
      obtain rfl := Option.some.inj ht
      exact eq_of_beq hkey ▸ hs
    · exact h.known key t ht

/-- Calls keep what is remembered suitable, and so are their answers; only the shape of a node that
is being resolved is not known. -/
theorem Answers.suits {ids : List String} {answers : List Schema} {r r' : Resolver}
    (h : Answers visiting r ids answers r') (hr : RemembersSuitable catalog nodes r) :
    RemembersSuitable catalog nodes r' ∧ List.Forall₂ (fun id s =>
      (catalog.Loops nodes id → s.isOpen = true) ∧ (id ∉ visiting → catalog.Suits nodes id s))
      ids answers := by
  induction h with
  | nil => exact ⟨hr, .nil⟩
  | append _ _ ih₁ ih₂ =>
    obtain ⟨hr₁, hfirst⟩ := ih₁ hr
    obtain ⟨hr', hlater⟩ := ih₂ hr₁
    exact ⟨hr', List.rel_append hfirst hlater⟩
  | remembered hknown =>
    have hsuits := hr.known _ _ hknown
    exact ⟨hr, .cons ⟨hsuits.isOpen, fun _ => hsuits⟩ .nil⟩
  | unknown _ h =>
    refine ⟨hr, .cons ⟨fun _ => rfl, fun hv => ⟨fun _ => rfl, fun n c hd => ?_⟩⟩ .nil⟩
    rw [hr.sameCatalog, hr.sameNodes, hd] at h
    cases h.resolve_right hv
  | own _ _ hdecl hi =>
    rw [hr.sameCatalog, hr.sameNodes] at hdecl
    have hsuits := Catalog.Suits.own hdecl hi
    exact ⟨hr.remember hsuits, .cons ⟨hsuits.isOpen, fun _ => hsuits⟩ .nil⟩
  | inherited _ _ hdecl hi _ ih =>
    obtain ⟨hr₁, hinputs⟩ := ih hr
    rw [hr.sameCatalog, hr.sameNodes] at hdecl
    have hsuits := Catalog.Suits.inherited hdecl (hinputs.imp fun _ _ h => h.1)
    exact ⟨hr₁.remember hsuits, .cons ⟨hsuits.isOpen, fun _ => hsuits⟩ .nil⟩

theorem resolveAll_yields_suitable (ids : List String) :
    Yields (RemembersSuitable catalog nodes) (resolveAll ids)
      (List.Forall₂ (catalog.Suits nodes) ids) := by
  intro r hr
  obtain ⟨hr', hsuits⟩ := (answers_resolveAll ids r).suits hr
  exact ⟨hsuits.imp fun _ _ h => h.2 List.not_mem_nil, hr'⟩

end Resolver
end Flowline
