import Flowline.Proofs.Graph.Order
import Mathlib.Data.Prod.Lex
import Mathlib.Data.List.Sort

/-!
# The canonical order

Nodes are ranked by the place of their last dependency, and then by declaration. Among the nodes
that were taken and those in the queue behind them these ranks strictly increase, since a node
releases nodes that rank above all that came before. So the ranks strictly increase in the whole
order. No other order has this property, and it does not tell in which order the edges were given.
-/
namespace Flowline.Graph

variable {g g' : Graph} {order other rest : List String} {id : String}

/-! ### Ranks -/

/-- The last place of a dependency in an order, -1 if there is none. -/
def lastDependency (g : Graph) (order : List String) (id : String) : Int :=
  (g.predecessors id).foldr (fun p last => max (order.idxOf p : Int) last) (-1)

/-- The last place of a dependency, then the place among the declarations. -/
def rank (g : Graph) (order : List String) (id : String) : Int ×ₗ Nat :=
  toLex (g.lastDependency order id, g.ids.idxOf id)

theorem lastDependency_le_iff {k : Int} : g.lastDependency order id ≤ k ↔
    -1 ≤ k ∧ ∀ p ∈ g.predecessors id, (order.idxOf p : Int) ≤ k := by
  unfold lastDependency
  generalize g.predecessors id = dependencies
  induction dependencies with
  | nil => simp
  | cons p dependencies ih =>
    rw [List.foldr_cons, max_le_iff, ih, List.forall_mem_cons]
    exact and_left_comm

theorem idxOf_le_lastDependency {p : String} (hp : p ∈ g.predecessors id) :
    (order.idxOf p : Int) ≤ g.lastDependency order id :=
  (lastDependency_le_iff.mp le_rfl).2 p hp

/-- What is listed behind the dependencies of a node does not count. -/
theorem lastDependency_append (h : ∀ p ∈ g.predecessors id, p ∈ order) :
    g.lastDependency (order ++ rest) id = g.lastDependency order id := by
  refine eq_of_forall_ge_iff fun k => ?_
  rw [lastDependency_le_iff, lastDependency_le_iff]
  refine and_congr_right fun _ => forall₂_congr fun p hp => ?_
  rw [List.idxOf_append_of_mem (h p hp)]

theorem rank_append (h : ∀ p ∈ g.predecessors id, p ∈ order) :
    g.rank (order ++ rest) id = g.rank order id := by
  rw [rank, rank, lastDependency_append h]

theorem lastDependency_lt_length (h : ∀ p ∈ g.predecessors id, p ∈ order) :
    g.lastDependency order id < order.length := by
  have hle : g.lastDependency order id ≤ order.length - 1 := by
    refine lastDependency_le_iff.mpr ⟨by omega, fun p hp => ?_⟩
    have hlt := List.idxOf_lt_length_of_mem (h p hp)
    omega
  omega

/-- Ranks depend on what the dependencies of a node are, not on how they are listed. -/
theorem rank_congr (hids : g.ids = g'.ids)
    (h : ∀ p, p ∈ g.predecessors id ↔ p ∈ g'.predecessors id) :
    g.rank order id = g'.rank order id := by
  have hlast : g.lastDependency order id = g'.lastDependency order id := by
    refine eq_of_forall_ge_iff fun k => ?_
    simp only [lastDependency_le_iff, h]
  rw [rank, rank, hlast, hids]

theorem rank_lt_of_last {a b : String}
    (h : g.lastDependency order a < g.lastDependency order b) : g.rank order a < g.rank order b :=
  Prod.Lex.toLex_lt_toLex.mpr (.inl h)

theorem rank_lt_of_declared {a b : String}
    (hlast : g.lastDependency order a = g.lastDependency order b)
    (hab : g.ids.idxOf a < g.ids.idxOf b) : g.rank order a < g.rank order b :=
  Prod.Lex.toLex_lt_toLex.mpr (.inr ⟨hlast, hab⟩)

/-- Each node is declared before the nodes that follow it. -/
theorem WellFormed.ids_pairwise (hg : g.WellFormed) :
    g.ids.Pairwise (g.ids.idxOf · < g.ids.idxOf ·) := by
  have hpairwise := distinct_pairwise g.ids
  rwa [distinct_eq_self hg.ids_nodup] at hpairwise

/-! ### The queue -/

namespace Taking

variable {t : Taking} {queue : List String}

/-- The ranks of the nodes that were taken and of those in the queue strictly increase. -/
def Ranked (g : Graph) (t : Taking) : Prop :=
  (t.taken.reverse ++ t.queue).Pairwise fun a b =>
    g.rank t.taken.reverse a < g.rank t.taken.reverse b

theorem ranked_initial (hg : g.WellFormed) : (initial g).Ranked g := by
  simp only [Ranked, initial, List.reverse_nil, List.nil_append, List.pairwise_filter]
  refine hg.ids_pairwise.imp fun {a b} hab ha hb => ?_
  have hnone : ∀ x, decide ((g.predecessors x).length = 0) = true → g.lastDependency [] x = -1 :=
    fun x hx => by simp [lastDependency, List.length_eq_zero_iff.mp (of_decide_eq_true hx)]
  exact rank_lt_of_declared (by rw [hnone a ha, hnone b hb]) hab

theorem Sound.mem_taken_of_mem (h : t.Sound g) (hid : id ∈ t.taken.reverse ++ t.queue) :
    ∀ p ∈ g.predecessors id, p ∈ t.taken.reverse := by
  have hmem : id ∈ t.queue ++ t.taken := by
    simpa [or_comm] using hid
  intro p hp
  exact List.mem_reverse.mpr ((h.ready_iff id (h.known id hmem)).mp hmem p hp)

/-- The last dependency of a node that is released is the one that was just taken. -/
theorem Sound.lastDependency_released (h : t.Sound g) (hg : g.WellFormed)
    (hqueue : t.queue = id :: queue) {x : String} (hx : x ∈ released g id t.taken) :
    g.lastDependency (t.taken.reverse ++ [id]) x = t.taken.length := by
  obtain ⟨hid, hall⟩ := (mem_released hg).mp hx
  have hplace : (t.taken.reverse ++ [id]).idxOf id = t.taken.length := by
    have hnew : id ∉ t.taken.reverse := fun hmem =>
      h.not_mem_taken hqueue (List.mem_reverse.mp hmem)
    simp [List.idxOf_append_of_notMem hnew]
  refine le_antisymm ?_ (hplace ▸ idxOf_le_lastDependency hid)
  have hlt : g.lastDependency (t.taken.reverse ++ [id]) x < (t.taken.reverse ++ [id]).length :=
    lastDependency_lt_length fun p hp => by simpa [or_comm] using hall p hp
  simp only [List.length_append, List.length_reverse, List.length_singleton] at hlt
  omega

/-- Nodes that a node releases rank above all that came before, and among themselves as declared. -/
theorem Ranked.next (h : t.Ranked g) (hsound : t.Sound g) (hg : g.WellFormed)
    (hqueue : t.queue = id :: queue) : (t.next g id queue).Ranked g := by
  have hsame : ∀ x ∈ t.taken.reverse ++ t.queue,
      g.rank (t.taken.reverse ++ [id]) x = g.rank t.taken.reverse x := fun x hx =>
    rank_append (hsound.mem_taken_of_mem hx)
  have hreleased : ∀ x ∈ released g id t.taken,
      g.lastDependency (t.taken.reverse ++ [id]) x = t.taken.length := fun x hx =>
    hsound.lastDependency_released hg hqueue hx
  have hlist : (t.next g id queue).taken.reverse ++ (t.next g id queue).queue =
      (t.taken.reverse ++ t.queue) ++ released g id t.taken := by
    rw [hsound.queue_next_eq hg hqueue, taken_next, hqueue]
    simp
  rw [Ranked, hlist, taken_next, List.reverse_cons]
  -- The nodes that came before, those that are released, and the ones against the others.
  refine List.pairwise_append.mpr ⟨?_, ?_, fun a ha b hb => ?_⟩
  · exact List.Pairwise.imp_of_mem (fun ha hb hab => by rwa [hsame _ ha, hsame _ hb]) h
  · have hdeclared : (released g id t.taken).Pairwise (g.ids.idxOf · < g.ids.idxOf ·) :=
      hg.ids_pairwise.sublist (List.filter_sublist.trans List.filter_sublist)
    refine hdeclared.imp_of_mem fun {a b} ha hb hab => ?_
    exact rank_lt_of_declared (by rw [hreleased a ha, hreleased b hb]) hab
  · refine rank_lt_of_last ?_
    rw [lastDependency_append (hsound.mem_taken_of_mem ha), hreleased b hb]
    simpa using lastDependency_lt_length (hsound.mem_taken_of_mem ha)

end Taking

theorem takenOrder_ranked (hg : g.WellFormed) :
    g.takenOrder.Pairwise fun a b => g.rank g.takenOrder a < g.rank g.takenOrder b := by
  obtain ⟨⟨-, hranked⟩, hqueue⟩ := Taking.run_induction (g := g) (t := .initial g)
    (p := fun t => t.Sound g ∧ t.Ranked g) ⟨Taking.sound_initial hg, Taking.ranked_initial hg⟩
    fun t id queue ⟨hsound, hranked⟩ hqueue =>
      ⟨hsound.next hg hqueue, hranked.next hsound hg hqueue⟩
  rwa [Taking.Ranked, hqueue, List.append_nil] at hranked

/-! ### The one canonical order -/

/-- An order of all nodes in which their own ranks strictly increase. -/
structure Canonical (g : Graph) (order : List String) : Prop where
  perm : order.Perm g.ids
  increasing : order.Pairwise fun a b => g.rank order a < g.rank order b

theorem takenOrder_canonical (hg : g.WellFormed) (hacyclic : g.Acyclic) :
    g.Canonical g.takenOrder :=
  ⟨(takenOrder_topological hg hacyclic).perm hg, takenOrder_ranked hg⟩

namespace Canonical

theorem mem_iff (h : g.Canonical order) : id ∈ order ↔ id ∈ g.ids := h.perm.mem_iff

theorem rank_lt (h : g.Canonical order) {a b : String} (hb : b ∈ g.ids)
    (hab : order.idxOf a < order.idxOf b) : g.rank order a < g.rank order b := by
  have hlast := List.idxOf_lt_length_of_mem (h.mem_iff.mpr hb)
  have hlt := List.pairwise_iff_getElem.mp h.increasing _ _ (hab.trans hlast) hlast hab
  rwa [List.getElem_idxOf, List.getElem_idxOf] at hlt

/-- An order in which ranks increase leads every edge of a graph without cycles forward. -/
theorem topological (h : g.Canonical order) (hg : g.WellFormed) (hacyclic : g.Acyclic) :
    g.Topological order := by
  refine ⟨h.perm.nodup_iff.mpr hg.ids_nodup, fun _ => h.mem_iff, fun a b hab => ?_⟩
  by_contra hback
  -- Among the nodes from `b` on there is one whose dependencies all stand before `b`. The last
  -- dependency of `b` does not, so this node ranks below `b` without standing before it.
  obtain ⟨x, hx, hbx, hfirst⟩ := hacyclic.exists_first
    (p := fun x => order.idxOf b ≤ order.idxOf x) (hg.source hab) (Nat.not_lt.mp hback)
  have hlower : g.lastDependency order x < g.lastDependency order b := by
    have hbefore : g.lastDependency order x ≤ order.idxOf b - 1 := by
      refine lastDependency_le_iff.mpr ⟨by omega, fun p hp => ?_⟩
      have hpx := hg.mem_predecessors_iff.mp hp
      have hlt := hfirst p (hg.source hpx) hpx
      omega
    have hlast : (order.idxOf a : Int) ≤ g.lastDependency order b :=
      idxOf_le_lastDependency (hg.mem_predecessors_iff.mpr hab)
    omega
  have hrank : g.rank order x < g.rank order b := rank_lt_of_last hlower
  rcases Nat.eq_or_lt_of_le hbx with heq | hlt
  · have hxb : b = x := (List.idxOf_inj (h.mem_iff.mpr hab.target)).mp heq
    exact lt_irrefl _ (hxb ▸ hrank)
  · exact lt_asymm hrank (h.rank_lt hx hlt)

end Canonical

theorem Topological.not_mem_before (h : g.Topological (order ++ id :: rest)) : id ∉ order :=
  fun hid => (List.nodup_cons.mp (List.nodup_middle.mp h.nodup)).1 (List.mem_append_left _ hid)

/-- The dependencies of a node are listed before it. -/
theorem Topological.mem_before (h : g.Topological (order ++ id :: rest)) (hg : g.WellFormed) :
    ∀ p ∈ g.predecessors id, p ∈ order := by
  intro p hp
  have hlt := h.forward p id (hg.mem_predecessors_iff.mp hp)
  rw [List.idxOf_append_of_notMem h.not_mem_before, List.idxOf_cons_self, List.idxOf_append] at hlt
  by_contra hmem
  rw [if_neg hmem] at hlt
  omega

/-- Two lists of one length are equal if they never part. -/
theorem eq_of_forall_prefix {α : Type*} {l l' : List α} (hlength : l.length = l'.length)
    (h : ∀ p a b r s, l = p ++ a :: r → l' = p ++ b :: s → a = b) : l = l' := by
  induction l generalizing l' with
  | nil => exact (List.length_eq_zero_iff.mp hlength.symm).symm
  | cons a l ih =>
    cases l' with
    | nil => cases hlength
    | cons b l' =>
      obtain rfl := h [] a b l l' rfl rfl
      rw [ih (Nat.succ.inj hlength) fun p c d r s hl hl' =>
        h (a :: p) c d r s (by rw [hl, List.cons_append]) (by rw [hl', List.cons_append])]

namespace Canonical

/-- Of the nodes whose dependencies are all listed, the one that comes next has the lowest rank. -/
theorem rank_lt_of_ready {p r : List String} {a b : String} (h : g.Canonical (p ++ a :: r))
    (hg : g.WellFormed) (hacyclic : g.Acyclic) (hb : b ∈ g.ids) (hnew : b ∉ p) (hne : b ≠ a)
    (hready : ∀ q ∈ g.predecessors b, q ∈ p) : g.rank p a < g.rank p b := by
  have hlater : b ∈ r := by
    have hmem := h.mem_iff.mpr hb
    simpa [hnew, hne] using hmem
  have hfrom := (List.pairwise_append.mp h.increasing).2.1
  have hlt := (List.pairwise_cons.mp hfrom).1 b hlater
  rwa [rank_append ((h.topological hg hacyclic).mem_before hg), rank_append hready] at hlt

/-- There is one canonical order: where two of them part, the two next nodes would rank below each
other. -/
theorem eq (h : g.Canonical order) (h' : g.Canonical other) (hg : g.WellFormed)
    (hacyclic : g.Acyclic) : order = other := by
  have hlength := h.perm.length_eq.trans h'.perm.length_eq.symm
  refine eq_of_forall_prefix hlength fun p a b r s ha hb => ?_
  subst ha hb
  have ht := h.topological hg hacyclic
  have ht' := h'.topological hg hacyclic
  by_contra hne
  have hab : g.rank p a < g.rank p b := h.rank_lt_of_ready hg hacyclic
    (h'.mem_iff.mp (by simp)) ht'.not_mem_before (Ne.symm hne) (ht'.mem_before hg)
  have hba : g.rank p b < g.rank p a := h'.rank_lt_of_ready hg hacyclic
    (h.mem_iff.mp (by simp)) ht.not_mem_before hne (ht.mem_before hg)
  exact lt_asymm hab hba

/-- Graphs with the same nodes and edges have the same canonical orders. -/
theorem congr (h : g.Canonical order) (hids : g.ids = g'.ids)
    (hedges : ∀ a b, a ∈ g.predecessors b ↔ a ∈ g'.predecessors b) : g'.Canonical order := by
  refine ⟨hids ▸ h.perm, h.increasing.imp fun {a b} hab => ?_⟩
  rwa [rank_congr hids fun p => hedges p a, rank_congr hids fun p => hedges p b] at hab

end Canonical

/-- The order of a graph without cycles lists all its nodes with strictly increasing ranks, where
the places of dependencies are those in the order itself. No other order of the nodes does, neither
by these ranks nor by its own, and the order stays the same however the edges are listed. -/
theorem topologicalOrder_canonical (ids : List String) (edges : List (String × String))
    (hacyclic : (ofParts ids edges).Acyclic) :
    ∃ order, (ofParts ids edges).topologicalOrder = .ok order ∧
      (ofParts ids edges).Canonical order ∧
      (∀ other, other.Perm order → other.Pairwise (fun a b =>
        (ofParts ids edges).rank order a < (ofParts ids edges).rank order b) → other = order) ∧
      (∀ other, (ofParts ids edges).Canonical other → other = order) ∧
      ∀ edges', (∀ e, e ∈ edges' ↔ e ∈ edges) →
        (ofParts ids edges').topologicalOrder = .ok order := by
  have hg := wellFormed_ofParts ids edges
  have hcanonical := takenOrder_canonical hg hacyclic
  refine ⟨_, topologicalOrder_of_acyclic hg hacyclic, hcanonical, fun other hperm hother => ?_,
    fun other hother => hother.eq hcanonical hg hacyclic, fun edges' hedges => ?_⟩
  · exact hperm.eq_of_pairwise (fun a b _ _ hab hba => absurd hba (lt_asymm hab)) hother
      hcanonical.increasing
  · have hg' := wellFormed_ofParts ids edges'
    have hleads : (ofParts ids edges').Leads = (ofParts ids edges).Leads := by
      ext a b
      rw [leads_ofParts, leads_ofParts, hedges]
    have hacyclic' : (ofParts ids edges').Acyclic := by
      rwa [Acyclic, hleads]
    have hcanonical' : (ofParts ids edges).Canonical (ofParts ids edges').takenOrder :=
      (takenOrder_canonical hg' hacyclic').congr rfl fun a b => by
        rw [hg'.mem_predecessors_iff, hg.mem_predecessors_iff, hleads]
    rw [topologicalOrder_of_acyclic hg' hacyclic', hcanonical'.eq hcanonical hg hacyclic]

/-- Ties go to the node declared first: `z` before `a`, and `m` before `b`. But `c`, declared last,
comes before both, since `z` releases it earlier. -/
theorem topologicalOrder_canonical_ties :
    let edges := [("z", "m"), ("a", "m"), ("a", "b"), ("z", "c")]
    (ofParts ["z", "a", "m", "b", "c"] edges).topologicalOrder = .ok ["z", "a", "c", "m", "b"] ∧
      (ofParts ["z", "a", "m", "b", "c"] edges).Canonical ["z", "a", "c", "m", "b"] ∧
      (ofParts ["z", "a", "m", "b", "c"] edges.reverse).topologicalOrder =
        .ok ["z", "a", "c", "m", "b"] := by
  intro edges
  have hacyclic : (ofParts ["z", "a", "m", "b", "c"] edges).Acyclic :=
    findCycle_eq_none_iff.mp (by decide +kernel)
  have horder : (ofParts ["z", "a", "m", "b", "c"] edges).topologicalOrder =
      .ok ["z", "a", "c", "m", "b"] := by decide +kernel
  obtain ⟨order, horder', hcanonical, -, -, hsame⟩ := topologicalOrder_canonical _ _ hacyclic
  rw [horder] at horder'
  cases horder'
  exact ⟨horder, hcanonical, hsame _ fun e => List.mem_reverse⟩

end Flowline.Graph
