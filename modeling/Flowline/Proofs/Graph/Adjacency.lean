import Flowline.Proofs.Graph.Basic
import Mathlib.Data.List.Induction
import Mathlib.Data.List.Sort

/-!
# Adjacency tables

The tables are filled in two passes. The first numbers the ids in order of their first occurrence
and opens an empty row for each (`Numbered`). Through the second, a row of either table lists the
other ends of the edges met so far, each once and in order of insertion (`Lists`). One look into the
dependents decides for both tables, since these are mirrors of each other (`Mirrors`). So the
finished tables represent what was given (`Represents`), and answer as the graph by names does
(`Shows`).
-/
namespace Flowline.Adjacency

variable {t : Adjacency} {ids : List String} {edges : List (String × String)}

/-! ### Numbers -/

theorem isSome_index_iff (h : ∀ id i, t.index id = some i ↔ t.ids[i]? = some id) {id : String} :
    (t.index id).isSome = true ↔ id ∈ t.ids := by
  rw [Option.isSome_iff_exists, List.mem_iff_getElem?]
  exact exists_congr fun i => h id i

/-- Ids are numbered in order of first occurrence, and no neighbours are listed. -/
structure Numbered (t : Adjacency) (ids : List String) : Prop where
  ids_eq : t.ids = distinct ids
  index_iff : ∀ id i, t.index id = some i ↔ t.ids[i]? = some id
  successors_eq : t.successors = List.replicate t.ids.length []
  predecessors_eq : t.predecessors = List.replicate t.ids.length []

theorem numbered_empty : empty.Numbered [] := ⟨rfl, by simp [empty], rfl, rfl⟩

theorem Numbered.push (h : t.Numbered ids) {id : String} (hnew : id ∉ ids) :
    (t.push id).Numbered (ids ++ [id]) where
  ids_eq := by rw [ids_push, h.ids_eq, distinct_concat, if_neg hnew]
  index_iff x i := by
    have hnew' : id ∉ t.ids := by rwa [h.ids_eq, mem_distinct]
    rw [ids_push, index_push]
    by_cases hx : x = id
    · subst hx
      grind
    · have hold := h.index_iff x i
      grind
  successors_eq := by simp [h.successors_eq, List.replicate_succ']
  predecessors_eq := by simp [h.predecessors_eq, List.replicate_succ']

theorem Numbered.addId (h : t.Numbered ids) (id : String) :
    (t.addId id).Numbered (ids ++ [id]) := by
  have hmem : (t.index id).isSome = true ↔ id ∈ ids := by
    rw [isSome_index_iff h.index_iff, h.ids_eq, mem_distinct]
  by_cases hid : id ∈ ids
  · rw [Adjacency.addId, if_pos (hmem.mpr hid)]
    exact { h with ids_eq := by rw [distinct_concat, if_pos hid, h.ids_eq] }
  · rw [Adjacency.addId, if_neg (mt hmem.mp hid)]
    exact h.push hid

theorem numbered_ofIds (ids : List String) : (ofIds ids).Numbered ids := by
  induction ids using List.reverseRecOn with
  | nil => exact numbered_empty
  | append_singleton ids id ih =>
    rw [ofIds, List.foldl_concat]
    exact ih.addId id

/-! ### Rows -/

section Rows

variable {rows : List (List Nat)} {index : String → Option Nat} {e : String × String} {a b : Nat}

/-- The numbers to which edges lead from a number, in order of insertion. -/
def targets (index : String → Option Nat) (edges : List (String × String)) (a : Nat) : List Nat :=
  edges.filterMap fun e => if index e.1 = some a then index e.2 else none

theorem mem_targets : b ∈ targets index edges a ↔
    ∃ e ∈ edges, index e.1 = some a ∧ index e.2 = some b := by
  simp [targets]

/-- The other way round edges lead from their targets to their sources. -/
theorem mem_targets_swap :
    a ∈ targets index (edges.map Prod.swap) b ↔ b ∈ targets index edges a := by
  rw [mem_targets, mem_targets]
  constructor
  · rintro ⟨e', he', hb, ha⟩
    obtain ⟨e, he, rfl⟩ := List.mem_map.mp he'
    exact ⟨e, he, ha, hb⟩
  · rintro ⟨e, he, ha, hb⟩
    exact ⟨e.swap, List.mem_map_of_mem he, hb, ha⟩

theorem targets_concat : targets index (edges ++ [e]) a =
    targets index edges a ++ (if index e.1 = some a then index e.2 else none).toList := by
  simp only [targets, List.filterMap_append]
  cases h : (if index e.1 = some a then index e.2 else none) <;> simp [h]

/-- A table lists for each number, once each, where edges lead from there. -/
def Lists (rows : List (List Nat)) (index : String → Option Nat) (edges : List (String × String)) :
    Prop :=
  ∀ a, rows.getD a [] = distinct (targets index edges a)

theorem lists_replicate (n : Nat) : Lists (List.replicate n []) index [] := by
  intro a
  rw [List.getD_eq_getElem?_getD, List.getElem?_replicate]
  split <;> rfl

theorem Lists.drop (h : Lists rows index edges) (he : index e.1 = none ∨ index e.2 = none) :
    Lists rows index (edges ++ [e]) := by
  intro c
  have hnone : (if index e.1 = some c then index e.2 else none) = none := by
    rcases he with he | he <;> simp [he]
  rw [h c, targets_concat, hnone, Option.toList_none, List.append_nil]

/-- An edge between numbers that were linked before changes nothing. -/
theorem Lists.again (h : Lists rows index edges) (ha : index e.1 = some a)
    (hb : index e.2 = some b) (hmem : b ∈ targets index edges a) :
    Lists rows index (edges ++ [e]) := by
  intro c
  rw [h c, targets_concat, ha, hb]
  by_cases hc : a = c
  · subst hc
    rw [if_pos rfl, Option.toList_some, distinct_concat, if_pos hmem]
  · rw [if_neg fun h => hc (Option.some.inj h), Option.toList_none, List.append_nil]

theorem Lists.add (h : Lists rows index edges) (ha : index e.1 = some a)
    (hb : index e.2 = some b) (hrow : a < rows.length) (hnew : b ∉ targets index edges a) :
    Lists (rows.modify a (· ++ [b])) index (edges ++ [e]) := by
  intro c
  have hold := h c
  rw [List.getD_eq_getElem?_getD] at hold
  rw [List.getD_eq_getElem?_getD, List.getElem?_modify, targets_concat, ha, hb]
  by_cases hc : a = c
  · subst hc
    rw [List.getElem?_eq_getElem hrow, Option.getD_some] at hold
    rw [if_pos rfl, Option.toList_some, distinct_concat, if_neg hnew, ← hold,
      List.getElem?_eq_getElem hrow]
    simp
  · rw [if_neg fun h => hc (Option.some.inj h), Option.toList_none, List.append_nil, ← hold]
    simp [hc]

end Rows

/-! ### Edges -/

section Edges

variable {e : String × String} {a b : Nat} {id : String}

theorem number?_eq_some_iff {i : Fin t.ids.length} :
    t.number? id = some i ↔ t.index id = some i.val := by
  rw [number?, Option.pmap_eq_some_iff]
  constructor
  · rintro ⟨j, hj, hid, rfl⟩
    exact hid
  · exact fun h => ⟨i.val, i.isLt, h, rfl⟩

theorem number?_eq_none_iff : t.number? id = none ↔ t.index id = none :=
  Option.pmap_eq_none_iff

/-- Edges lead between numbers that have rows. -/
theorem lt_of_mem_targets (h : b ∈ targets t.index edges a) :
    a < t.ids.length ∧ b < t.ids.length := by
  obtain ⟨e, -, ha, hb⟩ := mem_targets.mp h
  exact ⟨t.index_lt _ _ ha, t.index_lt _ _ hb⟩

theorem dependents_eq (i : Fin t.ids.length) : t.dependents i = t.successors.getD i.val [] :=
  List.getElem_eq_getD []

theorem dependencies_eq (i : Fin t.ids.length) :
    t.dependencies i = t.predecessors.getD i.val [] :=
  List.getElem_eq_getD []

/-- What an edge between known ids does. -/
theorem addEdge_of_known (ha : t.index e.1 = some a) (hb : t.index e.2 = some b) :
    t.addEdge e = if b ∈ t.successors.getD a [] then t else t.link a b := by
  have ha' : t.number? e.1 = some ⟨a, t.index_lt _ _ ha⟩ := number?_eq_some_iff.mpr ha
  have hb' : t.number? e.2 = some ⟨b, t.index_lt _ _ hb⟩ := number?_eq_some_iff.mpr hb
  simp only [addEdge, ha', hb', dependents_eq]

theorem addEdge_of_unknown (h : t.index e.1 = none ∨ t.index e.2 = none) : t.addEdge e = t := by
  rw [← number?_eq_none_iff, ← number?_eq_none_iff] at h
  rcases h with h | h
  · simp only [addEdge, h]
  · cases ha : t.number? e.1 <;> simp only [addEdge, ha, h]

/-- An edge changes no number. -/
theorem addEdge_keeps (t : Adjacency) (e : String × String) :
    (t.addEdge e).ids = t.ids ∧ (t.addEdge e).index = t.index := by
  unfold addEdge
  split
  · split
    · exact ⟨rfl, rfl⟩
    · exact ⟨ids_link .., index_link ..⟩
  · exact ⟨rfl, rfl⟩

/-- Both tables list the edges, one by their sources and the other one by their targets. -/
structure Mirrors (t : Adjacency) (edges : List (String × String)) : Prop where
  successors : Lists t.successors t.index edges
  predecessors : Lists t.predecessors t.index (edges.map Prod.swap)

theorem Numbered.mirrors (h : t.Numbered ids) : t.Mirrors [] where
  successors := h.successors_eq ▸ lists_replicate _
  predecessors := h.predecessors_eq ▸ lists_replicate _

theorem Mirrors.addEdge (h : t.Mirrors edges) (e : String × String) :
    (t.addEdge e).Mirrors (edges ++ [e]) := by
  have hswap : (edges ++ [e]).map Prod.swap = edges.map Prod.swap ++ [e.swap] := List.map_append
  by_cases hends : t.index e.1 = none ∨ t.index e.2 = none
  · rw [addEdge_of_unknown hends]
    exact ⟨h.successors.drop hends, hswap ▸ h.predecessors.drop hends.symm⟩
  · obtain ⟨ha, hb⟩ := not_or.mp hends
    obtain ⟨a, ha⟩ := Option.ne_none_iff_exists'.mp ha
    obtain ⟨b, hb⟩ := Option.ne_none_iff_exists'.mp hb
    have hrow : b ∈ t.successors.getD a [] ↔ b ∈ targets t.index edges a := by
      rw [h.successors a, mem_distinct]
    rw [addEdge_of_known ha hb]
    by_cases hmem : b ∈ targets t.index edges a
    · rw [if_pos (hrow.mpr hmem)]
      exact ⟨h.successors.again ha hb hmem,
        hswap ▸ h.predecessors.again hb ha (mem_targets_swap.mpr hmem)⟩
    · rw [if_neg (mt hrow.mp hmem)]
      have hsource : a < t.successors.length := t.length_successors ▸ t.index_lt _ _ ha
      have htarget : b < t.predecessors.length := t.length_predecessors ▸ t.index_lt _ _ hb
      exact ⟨h.successors.add ha hb hsource hmem,
        hswap ▸ h.predecessors.add hb ha htarget (mt mem_targets_swap.mp hmem)⟩

theorem foldl_addEdge_keeps (t : Adjacency) (edges : List (String × String)) :
    (edges.foldl Adjacency.addEdge t).ids = t.ids ∧
      (edges.foldl Adjacency.addEdge t).index = t.index := by
  induction edges using List.reverseRecOn with
  | nil => exact ⟨rfl, rfl⟩
  | append_singleton edges e ih =>
    obtain ⟨hids, hindex⟩ := addEdge_keeps (edges.foldl Adjacency.addEdge t) e
    rw [List.foldl_concat]
    exact ⟨hids.trans ih.1, hindex.trans ih.2⟩

theorem Mirrors.foldl (h : t.Mirrors []) (edges : List (String × String)) :
    (edges.foldl Adjacency.addEdge t).Mirrors edges := by
  induction edges using List.reverseRecOn with
  | nil => exact h
  | append_singleton edges e ih =>
    rw [List.foldl_concat]
    exact ih.addEdge e

end Edges

/-! ### The finished tables -/

theorem getD_sorted (t : Adjacency) (i : Nat) :
    t.sorted.successors.getD i [] = (t.successors.getD i []).mergeSort (· ≤ ·) := by
  rw [successors_sorted, List.getD_eq_getElem?_getD, List.getD_eq_getElem?_getD,
    List.getElem?_map]
  cases t.successors[i]? <;> simp

/-- What the tables hold after both passes: dependents are sorted, dependencies come in order of
insertion. -/
structure Filled (t : Adjacency) (ids : List String) (edges : List (String × String)) : Prop where
  ids_eq : t.ids = distinct ids
  index_iff : ∀ id i, t.index id = some i ↔ t.ids[i]? = some id
  dependents_eq : ∀ i, t.dependents i = (distinct (targets t.index edges i)).mergeSort (· ≤ ·)
  dependencies_eq : ∀ i,
    t.dependencies i = distinct (targets t.index (edges.map Prod.swap) i)

theorem filled_ofParts (ids : List String) (edges : List (String × String)) :
    (ofParts ids edges).Filled ids edges := by
  have hnumbered := numbered_ofIds ids
  have hmirrors := hnumbered.mirrors.foldl edges
  obtain ⟨hids, hindex⟩ := foldl_addEdge_keeps (ofIds ids) edges
  constructor
  case ids_eq => rw [ofParts, ids_sorted, hids, hnumbered.ids_eq]
  case index_iff =>
    intro id i
    rw [ofParts, ids_sorted, index_sorted, hids, hindex, hnumbered.index_iff]
  case dependents_eq =>
    have hrow : ∀ a, (ofParts ids edges).successors.getD a [] =
        (distinct (targets (ofParts ids edges).index edges a)).mergeSort (· ≤ ·) := fun a => by
      rw [ofParts, getD_sorted, hmirrors.successors a, index_sorted]
    exact fun i => (dependents_eq i).trans (hrow i)
  case dependencies_eq =>
    exact fun i => (dependencies_eq i).trans (hmirrors.predecessors i)

namespace Filled

variable (h : t.Filled ids edges)
include h

theorem ids_nodup : t.ids.Nodup := h.ids_eq ▸ nodup_distinct ids

theorem mem_dependents {a : Fin t.ids.length} {b : Nat} :
    b ∈ t.dependents a ↔ b ∈ targets t.index edges a := by
  rw [h.dependents_eq, List.mem_mergeSort, mem_distinct]

theorem mem_dependencies {a : Nat} {b : Fin t.ids.length} :
    a ∈ t.dependencies b ↔ b.val ∈ targets t.index edges a := by
  rw [h.dependencies_eq, mem_distinct, mem_targets_swap]

theorem mem_targets_iff {a b : Nat} : b ∈ targets t.index edges a ↔
    ∃ e ∈ edges, t.ids[a]? = some e.1 ∧ t.ids[b]? = some e.2 := by
  simp only [mem_targets, h.index_iff]

theorem increasing (i : Fin t.ids.length) : (t.dependents i).Pairwise (· < ·) := by
  have hsorted : (t.dependents i).Pairwise (· ≤ ·) := by
    rw [h.dependents_eq]
    exact List.pairwise_mergeSort' (· ≤ ·) _
  have hnodup : (t.dependents i).Nodup := by
    rw [h.dependents_eq]
    exact (List.mergeSort_perm _ _).nodup_iff.mpr (nodup_distinct _)
  exact hsorted.imp₂ (fun _ _ hle hne => Nat.lt_of_le_of_ne hle hne) hnodup

end Filled

/-! ### What they represent -/

/-- The tables represent the ids and the edges that were given: ids are numbered in order of first
occurrence, and the two tables are exact mirrors of each other. -/
structure Represents (t : Adjacency) (ids : List String) (edges : List (String × String)) :
    Prop where
  mem_ids : ∀ id, id ∈ t.ids ↔ id ∈ ids
  ids_nodup : t.ids.Nodup
  ids_ordered : t.ids.Pairwise (ids.idxOf · < ids.idxOf ·)
  index_iff : ∀ id i, t.index id = some i ↔ t.ids[i]? = some id
  dependents_lt : ∀ i, ∀ j ∈ t.dependents i, j < t.ids.length
  dependencies_lt : ∀ i, ∀ j ∈ t.dependencies i, j < t.ids.length
  dependents_increasing : ∀ i, (t.dependents i).Pairwise (· < ·)
  dependencies_nodup : ∀ i, (t.dependencies i).Nodup
  mirrored : ∀ a b : Fin t.ids.length, b.val ∈ t.dependents a ↔ a.val ∈ t.dependencies b
  given : ∀ a b : Fin t.ids.length, b.val ∈ t.dependents a ↔ (t.ids[a], t.ids[b]) ∈ edges

theorem Filled.represents (h : t.Filled ids edges) : t.Represents ids edges where
  mem_ids id := by rw [h.ids_eq, mem_distinct]
  ids_nodup := h.ids_nodup
  ids_ordered := h.ids_eq ▸ distinct_pairwise ids
  index_iff := h.index_iff
  dependents_lt _ _ hj := (lt_of_mem_targets (h.mem_dependents.mp hj)).2
  dependencies_lt _ _ hj := (lt_of_mem_targets (h.mem_dependencies.mp hj)).1
  dependents_increasing := h.increasing
  dependencies_nodup i := h.dependencies_eq i ▸ nodup_distinct _
  mirrored a b := h.mem_dependents.trans h.mem_dependencies.symm
  given a b := by
    rw [h.mem_dependents, h.mem_targets_iff, List.getElem?_eq_getElem a.isLt,
      List.getElem?_eq_getElem b.isLt]
    constructor
    · rintro ⟨e, he, ha, hb⟩
      have hends : (t.ids[a], t.ids[b]) = e := Prod.ext (Option.some.inj ha) (Option.some.inj hb)
      exact hends ▸ he
    · exact fun he => ⟨_, he, rfl, rfl⟩

theorem successors_eq_map (t : Adjacency) :
    t.successors = (List.finRange t.ids.length).map t.dependents := by
  refine List.ext_getElem (by simp [t.length_successors]) fun i hi hi' => ?_
  simp [dependents]

/-- A node has as many dependencies as there are rows of dependents that list it. -/
theorem Represents.length_dependencies (h : t.Represents ids edges) (b : Fin t.ids.length) :
    (t.dependencies b).length = t.successors.countP (b.val ∈ ·) := by
  have hperm : (t.dependencies b).Perm
      (((List.finRange t.ids.length).filter (b.val ∈ t.dependents ·)).map Fin.val) := by
    refine (List.perm_ext_iff_of_nodup (h.dependencies_nodup b) ?_).mpr fun a => ?_
    · exact ((List.nodup_finRange _).filter _).map Fin.val_injective
    · simp only [List.mem_map, List.mem_filter, List.mem_finRange, true_and, decide_eq_true_eq]
      constructor
      · intro ha
        let a' : Fin t.ids.length := ⟨a, h.dependencies_lt b a ha⟩
        exact ⟨a', (h.mirrored a' b).mpr ha, rfl⟩
      · rintro ⟨a', ha, rfl⟩
        exact (h.mirrored a' b).mp ha
  rw [hperm.length_eq, List.length_map, successors_eq_map, List.countP_map,
    List.countP_eq_length_filter]
  rfl

/-! ### The graph by names -/

/-- The tables answer as a graph does. -/
structure Shows (t : Adjacency) (g : Graph) : Prop where
  ids_eq : t.ids = g.ids
  contains_eq : ∀ id, t.contains id = g.contains id
  successorIds_eq : ∀ id, t.successorIds id = g.successors id
  predecessorIds_eq : ∀ id, t.predecessorIds id = g.predecessors id

/-- Neighbours go by the names of a row; an unknown node has none. -/
theorem neighbours_eq {row : Fin t.ids.length → List Nat} {node : String} {names : List String}
    (hknown : ∀ i, t.index node = some i.val → (row i).map (t.ids[·]?) = names.map some)
    (hunknown : t.index node = none → names = []) : t.neighbours row node = names := by
  cases hnode : t.number? node with
  | none =>
    rw [hunknown (number?_eq_none_iff.mp hnode)]
    simp only [neighbours, hnode]
  | some i =>
    have hrow : (row i).filterMap (t.ids[·]?) = ((row i).map (t.ids[·]?)).filterMap id := by
      rw [List.filterMap_map]
      rfl
    simp only [neighbours, hnode]
    rw [hrow, hknown i (number?_eq_some_iff.mp hnode), List.filterMap_map]
    exact List.filterMap_some

namespace Filled

variable {id : String}

theorem not_mem_of_unknown (h : t.Filled ids edges) (hid : t.index id = none) : id ∉ ids := by
  rw [← mem_distinct, ← h.ids_eq, ← isSome_index_iff h.index_iff, hid]
  exact Bool.false_ne_true

theorem contains_eq (h : t.Filled ids edges) (id : String) :
    t.contains id = (Graph.ofParts ids edges).contains id := by
  have hknown : (t.index id).isSome = true ↔ id ∈ t.ids := isSome_index_iff h.index_iff
  rw [h.ids_eq, ← List.contains_iff_mem] at hknown
  exact Bool.eq_iff_iff.mpr hknown

/-- The names of the numbers from which edges lead to a number. -/
theorem map_targets_swap (h : t.Filled ids edges) {es : List (String × String)} {b : Nat}
    (hid : t.index id = some b) :
    (targets t.index (es.map Prod.swap) b).map (t.ids[·]?) =
      (es.filter fun e => e.2 == id && (t.ids.contains e.1 && t.ids.contains e.2)).map
        (some ∘ Prod.fst) := by
  have hmem : id ∈ t.ids := (isSome_index_iff h.index_iff).mp (by rw [hid]; rfl)
  induction es using List.reverseRecOn with
  | nil => rfl
  | append_singleton es e ih =>
    have hsource : (t.index e.1).isSome = true ↔ e.1 ∈ t.ids := isSome_index_iff h.index_iff
    rw [List.map_append, List.map_singleton, targets_concat, List.map_append, ih,
      List.filter_append, List.map_append, Prod.fst_swap, Prod.snd_swap, List.append_cancel_left_eq]
    by_cases hinto : e.2 = id
    · cases ha : t.index e.1 with
      | none =>
        have hunknown : e.1 ∉ t.ids := by simpa [ha] using hsource
        simp [hunknown]
      | some a =>
        have hknown : e.1 ∈ t.ids := by simpa [ha] using hsource
        simp [hinto, hid, hmem, hknown, (h.index_iff e.1 a).mp ha]
    · have hother : t.index e.2 ≠ some b := fun hb => hinto <| Option.some.inj <|
        ((h.index_iff e.2 b).mp hb).symm.trans ((h.index_iff id b).mp hid)
      simp [hother, hinto]

/-- Dependencies come in order of insertion. -/
theorem map_dependencies (h : t.Filled ids edges) {b : Fin t.ids.length}
    (hid : t.index id = some b.val) : (t.dependencies b).map (t.ids[·]?) =
      ((Graph.ofParts ids edges).predecessors id).map some := by
  let into := edges.filter fun e => e.2 == id && (t.ids.contains e.1 && t.ids.contains e.2)
  calc (t.dependencies b).map (t.ids[·]?)
      = distinct ((targets t.index (edges.map Prod.swap) b).map (t.ids[·]?)) := by
        rw [h.dependencies_eq]
        refine map_distinct fun i hi j _ hij => ?_
        have hlt := (lt_of_mem_targets (mem_targets_swap.mp hi)).1
        exact (List.getElem?_inj hlt h.ids_nodup).mp hij
    _ = distinct (into.map (some ∘ Prod.fst)) := congrArg distinct (h.map_targets_swap hid)
    _ = (distinct into).map (some ∘ Prod.fst) := by
        refine (map_distinct fun e he e' he' hee => ?_).symm
        have hb : e.2 = e'.2 := by
          simp only [into, List.mem_filter, Bool.and_eq_true, beq_iff_eq] at he he'
          rw [he.2.1, he'.2.1]
        exact Prod.ext (Option.some.inj hee) hb
    _ = ((Graph.ofParts ids edges).predecessors id).map some := by
        simp only [into, Graph.predecessors, Graph.ofParts, filter_distinct, List.filter_filter,
          List.map_map, h.ids_eq]

theorem mem_of_getElem? (h : t.Filled ids edges) {i : Nat} (hi : t.ids[i]? = some id) :
    id ∈ ids := by
  rw [← mem_distinct, ← h.ids_eq]
  exact List.mem_of_getElem? hi

theorem mem_dependents_iff_hasEdge (h : t.Filled ids edges) {a : Fin t.ids.length} {b : Nat}
    (hid : t.index id = some a.val) : b ∈ t.dependents a ↔
      ∃ x, t.ids[b]? = some x ∧ (Graph.ofParts ids edges).hasEdge id x = true := by
  have ha : t.ids[a.val]? = some id := (h.index_iff id a).mp hid
  rw [h.mem_dependents, h.mem_targets_iff]
  constructor
  · rintro ⟨e, he, hsource, hb⟩
    cases ha.symm.trans hsource
    exact ⟨e.2, hb, Graph.hasEdge_iff.mpr (Graph.mem_edges_ofParts.mpr
      ⟨he, h.mem_of_getElem? ha, h.mem_of_getElem? hb⟩)⟩
  · rintro ⟨x, hb, hx⟩
    exact ⟨(id, x), (Graph.mem_edges_ofParts.mp (Graph.hasEdge_iff.mp hx)).1, ha, hb⟩

/-- Dependents come in order of declaration. -/
theorem map_dependents (h : t.Filled ids edges) {a : Fin t.ids.length}
    (hid : t.index id = some a.val) : (t.dependents a).map (t.ids[·]?) =
      ((Graph.ofParts ids edges).successors id).map some := by
  let leads := (Graph.ofParts ids edges).hasEdge id
  -- Both lists strictly increase, so it is enough that they have the same members.
  have hrow : t.dependents a =
      (List.range t.ids.length).filter fun b => (t.ids[b]?).any leads := by
    refine (h.increasing a).eq_of_mem_iff (List.pairwise_lt_range.filter _) fun b => ?_
    rw [h.mem_dependents_iff_hasEdge hid, List.mem_filter, List.mem_range, Option.any_eq_true]
    exact ⟨fun ⟨x, hb, hx⟩ => ⟨(List.getElem?_eq_some_iff.mp hb).1, x, hb, hx⟩, fun hb => hb.2⟩
  have hnames : (List.range t.ids.length).map (t.ids[·]?) = t.ids.map some :=
    List.ext_getElem (by simp) fun b _ _ => by simp
  calc (t.dependents a).map (t.ids[·]?)
      = ((List.range t.ids.length).map (t.ids[·]?)).filter (Option.any leads) := by
        rw [hrow, List.filter_map]
        rfl
    _ = (t.ids.filter leads).map some := by
        rw [hnames, List.filter_map]
        rfl
    _ = ((Graph.ofParts ids edges).successors id).map some := by
        rw [h.ids_eq]
        rfl

theorem shows (h : t.Filled ids edges) : t.Shows (Graph.ofParts ids edges) where
  ids_eq := h.ids_eq
  contains_eq := h.contains_eq
  successorIds_eq _ := neighbours_eq (fun _ => h.map_dependents) fun hid =>
    List.eq_nil_iff_forall_not_mem.mpr fun _ hx => h.not_mem_of_unknown hid
      (Graph.mem_edges_ofParts.mp (Graph.mem_successors.mp hx).2).2.1
  predecessorIds_eq _ := neighbours_eq (fun _ => h.map_dependencies) fun hid =>
    List.eq_nil_iff_forall_not_mem.mpr fun _ hx => h.not_mem_of_unknown hid
      (Graph.mem_edges_ofParts.mp (Graph.mem_predecessors.mp hx)).2.2

end Filled

/-- Whatever ids and edges are given, the tables made of them represent these: ids come once each and
in order of first occurrence, the index gives the place of each and nothing else, every neighbour is
in range, dependents strictly increase, dependencies do not repeat, and both tables hold exactly the
edges between known ids. So a node has as many dependencies as there are nodes with it among their
dependents. By name the tables answer as the graph that is made of the same parts. -/
theorem ofParts_represents (ids : List String) (edges : List (String × String)) :
    (ofParts ids edges).Represents ids edges ∧
      (∀ b, ((ofParts ids edges).dependencies b).length =
        (ofParts ids edges).successors.countP (b.val ∈ ·)) ∧
      (ofParts ids edges).Shows (Graph.ofParts ids edges) := by
  have hfilled := filled_ofParts ids edges
  exact ⟨hfilled.represents, hfilled.represents.length_dependencies, hfilled.shows⟩

/-- Repeated ids and edges count once, an edge with an unknown end not at all, and a node may be its
own neighbour. -/
example :
    let t := ofParts ["a", "b", "a"] [("b", "a"), ("a", "a"), ("b", "a"), ("x", "a")]
    t.ids = ["a", "b"] ∧ t.successors = [[0], [0]] ∧ t.predecessors = [[1, 0], []] := by
  decide +kernel

end Flowline.Adjacency
