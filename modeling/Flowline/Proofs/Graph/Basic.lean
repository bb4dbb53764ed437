import Flowline.Graph.Basic
import Flowline.Proofs.Document.Distinct
import Mathlib.Data.Fintype.Card
import Mathlib.Data.Fintype.EquivFin
import Mathlib.Data.Fintype.Sets
import Mathlib.Data.List.Chain
import Mathlib.Logic.Relation
import Mathlib.Order.WellFounded

/-!
# Graphs, and their cycles

An edge `Leads` from a node to another one, and a graph is `Acyclic` if no way along edges comes
back to where it began. `WellFormed` is what every graph has that was built of parts: no id and no edge
twice, and edges between known nodes only.
-/
namespace Flowline.Graph

variable {g : Graph} {a b : String}

/-! ### Edges -/

theorem mem_edges_ofParts {ids : List String} {edges : List (String × String)} {a b : String} :
    (a, b) ∈ (ofParts ids edges).edges ↔ (a, b) ∈ edges ∧ a ∈ ids ∧ b ∈ ids := by
  simp [ofParts]

theorem hasEdge_iff {g : Graph} {a b : String} : g.hasEdge a b = true ↔ (a, b) ∈ g.edges := by
  simp [hasEdge]

theorem mem_successors {g : Graph} {a b : String} :
    b ∈ g.successors a ↔ b ∈ g.ids ∧ (a, b) ∈ g.edges := by
  simp [successors, hasEdge_iff]

theorem mem_predecessors {g : Graph} {a b : String} :
    a ∈ g.predecessors b ↔ (a, b) ∈ g.edges := by
  simp [predecessors]

/-- There is an edge from `a` to the node `b`. -/
def Leads (g : Graph) (a b : String) : Prop := b ∈ g.successors a

theorem leads_iff : g.Leads a b ↔ b ∈ g.ids ∧ (a, b) ∈ g.edges := mem_successors

theorem Leads.target (h : g.Leads a b) : b ∈ g.ids := (leads_iff.mp h).1

theorem leads_ofParts {ids : List String} {edges : List (String × String)} :
    (ofParts ids edges).Leads a b ↔ (a, b) ∈ edges ∧ a ∈ ids ∧ b ∈ ids := by
  rw [leads_iff, mem_edges_ofParts]
  simp only [ofParts, mem_distinct]
  exact ⟨fun h => h.2, fun h => ⟨h.2.2, h⟩⟩

/-! ### Well-formed graphs -/

structure WellFormed (g : Graph) : Prop where
  ids_nodup : g.ids.Nodup
  edges_nodup : g.edges.Nodup
  known : ∀ a b, (a, b) ∈ g.edges → a ∈ g.ids ∧ b ∈ g.ids

theorem wellFormed_ofParts (ids : List String) (edges : List (String × String)) :
    (ofParts ids edges).WellFormed where
  ids_nodup := nodup_distinct _
  edges_nodup := nodup_distinct _
  known a b h := by simpa [ofParts] using (mem_edges_ofParts.mp h).2

theorem wellFormed_ofDeclarations (nodes : List Declaration) : (ofDeclarations nodes).WellFormed :=
  wellFormed_ofParts _ _

namespace WellFormed

theorem mem_predecessors_iff (hg : g.WellFormed) : a ∈ g.predecessors b ↔ g.Leads a b := by
  rw [mem_predecessors, leads_iff]
  exact ⟨fun h => ⟨(hg.known a b h).2, h⟩, fun h => h.2⟩

theorem source (hg : g.WellFormed) (h : g.Leads a b) : a ∈ g.ids :=
  (hg.known a b (leads_iff.mp h).2).1

theorem successors_nodup (hg : g.WellFormed) (a : String) : (g.successors a).Nodup :=
  hg.ids_nodup.filter _

theorem predecessors_nodup (hg : g.WellFormed) (b : String) : (g.predecessors b).Nodup := by
  refine List.Nodup.map_on (fun e he e' he' hee => ?_) (hg.edges_nodup.filter _)
  have hb : e.2 = e'.2 := by
    have he₂ : e.2 = b := by simpa using (List.mem_filter.mp he).2
    have he₂' : e'.2 = b := by simpa using (List.mem_filter.mp he').2
    rw [he₂, he₂']
  exact Prod.ext hee hb

end WellFormed

/-! ### Cycles -/

/-- No way along edges leads from a node back to it. -/
def Acyclic (g : Graph) : Prop := ∀ id, ¬ Relation.TransGen g.Leads id id

/-- A way along edges that ends where it began and visits no node twice before. -/
structure IsCycle (g : Graph) (path : List String) : Prop where
  two_le : 2 ≤ path.length
  closed : path.head? = path.getLast?
  nodup : path.dropLast.Nodup
  leads : path.IsChain g.Leads

theorem IsCycle.not_acyclic {path : List String} (h : g.IsCycle path) : ¬ g.Acyclic := by
  obtain ⟨hlen, hclosed, -, hleads⟩ := h
  match path, hlen with
  | a :: b :: rest, _ =>
    obtain ⟨hab, hrest⟩ := List.isChain_cons_cons.mp hleads
    have hlast : (b :: rest).getLast (List.cons_ne_nil _ _) = a := by
      rw [List.head?_cons, List.getLast?_cons_cons,
        List.getLast?_eq_some_getLast (List.cons_ne_nil _ _)] at hclosed
      exact (Option.some.inj hclosed).symm
    exact fun hacyclic => hacyclic a
      (.head' hab (List.relationReflTransGen_of_exists_isChain_cons rest hrest hlast))

/-- A node from which every way along edges ends lies on no cycle. -/
theorem not_transGen_of_acc (h : Acc (fun b a => g.Leads a b) a) :
    ¬ Relation.TransGen g.Leads a a := by
  induction h with
  | intro a _ ih =>
    intro hcycle
    obtain ⟨b, hab, hba⟩ := Relation.TransGen.head'_iff.mp hcycle
    exact ih b hab (.tail' hba hab)

/-- Some of the nodes with a property come first: no edge leads to them from another of these. -/
theorem Acyclic.exists_first (h : g.Acyclic) {p : String → Prop} (ha : a ∈ g.ids) (hp : p a) :
    ∃ x ∈ g.ids, p x ∧ ∀ y ∈ g.ids, g.Leads y x → ¬ p y := by
  let r : {x // x ∈ g.ids} → {x // x ∈ g.ids} → Prop := fun x y => Relation.TransGen g.Leads x y
  have htrans : IsTrans _ r := ⟨fun _ _ _ => Relation.TransGen.trans⟩
  have hirrefl : Std.Irrefl r := ⟨fun x => h x⟩
  have hwf : WellFounded r := Finite.wellFounded_of_trans_of_irrefl r
  obtain ⟨⟨x, hx⟩, hpx, hfirst⟩ := hwf.has_min {x | p x} ⟨⟨a, ha⟩, hp⟩
  exact ⟨x, hx, hpx, fun y hy hyx hpy => hfirst ⟨y, hy⟩ hpy (.single hyx)⟩

end Flowline.Graph
