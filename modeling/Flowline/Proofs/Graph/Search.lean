import Flowline.Graph.Search
import Flowline.Proofs.Graph.Basic

/-!
# The search for cycles

The search comes to an end from every state. What it finds is a cycle, and it finds one unless there
is none: the nodes on its path form a way along edges, and a node that is done leads to no cycle,
because all its dependents were done before it.
-/
namespace Flowline.Graph

namespace Search

variable {g : Graph} {s s' : Search}

/-! ### What holds in every turn -/

/-- The dependents of a node on the path that were looked at are done, the one that was entered from
it excepted. -/
def Looked (g : Graph) (mark : String → Mark) (entered : Option String) (f : String × Nat) : Prop :=
  ∀ x ∈ (g.successors f.1).take f.2, mark x = .done ∨ entered = some x

/-- The later node of two neighbours on the path was entered from the earlier one. -/
def Follows (g : Graph) (mark : String → Mark) (later earlier : String × Nat) : Prop :=
  g.Leads earlier.1 later.1 ∧ Looked g mark (some later.1) earlier

/-- Each node on the path is marked so and stands there once, and every way along edges from a node
that is done comes to an end. -/
structure Marked (g : Graph) (s : Search) : Prop where
  nodup : s.nodes.Nodup
  onPath_iff : ∀ x, s.mark x = .onPath ↔ x ∈ s.nodes
  done : ∀ x, s.mark x = .done → Acc (fun b a => g.Leads a b) x

structure Sound (g : Graph) (s : Search) : Prop extends Marked g s where
  follows : s.path.IsChain (Follows g s.mark)
  looked : ∀ f ∈ s.path.head?, Looked g s.mark none f
  started : ∀ x ∈ g.ids, x ∉ s.starts → s.mark x ≠ .new

theorem sound_initial (g : Graph) : Sound g (initial g) where
  nodup := List.nodup_nil
  onPath_iff x := by simp [initial, nodes]
  done x h := by simp [initial] at h
  follows := List.isChain_nil
  looked := by simp [initial]
  started x hx hstart := absurd hx hstart

theorem leads_of_getElem? {id next : String} {looked : Nat}
    (h : (g.successors id)[looked]? = some next) : g.Leads id next := List.mem_of_getElem? h

theorem Looked.mono {mark mark' : String → Mark} {entered : Option String} {f : String × Nat}
    (h : Looked g mark entered f) (hm : ∀ x, mark x = .done → mark' x = .done) :
    Looked g mark' entered f := fun x hx => (h x hx).imp_left (hm x)

theorem Follows.mono {mark mark' : String → Mark} {later earlier : String × Nat}
    (h : Follows g mark later earlier) (hm : ∀ x, mark x = .done → mark' x = .done) :
    Follows g mark' later earlier := ⟨h.1, h.2.mono hm⟩

/-- Another dependent was looked at. -/
theorem Looked.next {mark : String → Mark} {id next : String} {looked : Nat}
    (h : Looked g mark none (id, looked)) (hnext : (g.successors id)[looked]? = some next)
    {entered : Option String} (hd : mark next = .done ∨ entered = some next) :
    Looked g mark entered (id, looked + 1) := by
  intro x hx
  rw [List.take_add_one, hnext] at hx
  rcases List.mem_append.mp hx with hx | hx
  · exact .inl ((h x hx).resolve_right (by simp))
  · obtain rfl : x = next := by simpa using hx
    exact hd

/-- A node that was looked through leads to nodes that are done only. -/
theorem Looked.all {mark : String → Mark} {id : String} {looked : Nat}
    (h : Looked g mark none (id, looked)) (hall : (g.successors id)[looked]? = none) :
    ∀ x, g.Leads id x → mark x = .done := by
  intro x hx
  refine (h x ?_).resolve_right (by simp)
  rwa [List.take_of_length_le (List.getElem?_eq_none_iff.mp hall)]

theorem Marked.not_mem_of_new (h : Marked g s) {id : String} (hnew : s.mark id = .new) :
    id ∉ s.nodes := by
  rw [← h.onPath_iff, hnew]
  decide

theorem Marked.enter (h : Marked g s) {id : String} (hnew : s.mark id = .new) :
    Marked g (s.enter id) where
  nodup := List.nodup_cons.mpr ⟨h.not_mem_of_new hnew, h.nodup⟩
  onPath_iff x := by
    by_cases hx : x = id
    · simp [hx]
    · simp [hx, h.onPath_iff]
  done x hx := by
    by_cases hid : x = id
    · simp [hid] at hx
    · exact h.done x (by simpa [hid] using hx)

theorem mark_enter_done {id : String} (hnew : s.mark id = .new) (x : String)
    (hx : s.mark x = .done) : (s.enter id).mark x = .done := by
  have hne : x ≠ id := fun heq => by simp [heq, hnew] at hx
  simp [hne, hx]

/-- A new node is entered from the last one on the path. -/
theorem Sound.enter (hm : Marked g s) {id : String} (hnew : s.mark id = .new)
    (hfollows : s.path.IsChain (Follows g s.mark))
    (hlast : ∀ f ∈ s.path.head?, Follows g s.mark (id, 0) f)
    (hstarted : ∀ x ∈ g.ids, x ∉ s.starts → x = id ∨ s.mark x ≠ .new) : Sound g (s.enter id) where
  toMarked := hm.enter hnew
  follows := by
    have hmono := mark_enter_done hnew
    refine List.isChain_cons.mpr ⟨fun f hf => (hlast f hf).mono hmono, ?_⟩
    exact hfollows.imp fun _ _ h => h.mono hmono
  looked := by
    rintro f ⟨⟩
    intro x hx
    simp at hx
  started x hx hstart := by
    by_cases hid : x = id
    · simp [hid]
    · simpa [hid] using (hstarted x hx hstart).resolve_left hid

/-- The last node on the path is left: all that it leads to is done. -/
theorem Sound.leave {id : String} {looked : Nat} {path : List (String × Nat)} (h : Sound g s)
    (hpath : s.path = (id, looked) :: path) (hall : (g.successors id)[looked]? = none) :
    Sound g { s.setMark id .done with path } := by
  have hnodes : s.nodes = id :: path.map (·.1) := by simp [nodes, hpath]
  have hnodup := List.nodup_cons.mp (hnodes ▸ h.nodup)
  have hlooked : Looked g s.mark none (id, looked) := h.looked _ (by simp [hpath])
  have hfollows := List.isChain_cons.mp (hpath ▸ h.follows)
  have hmono : ∀ x, s.mark x = .done → (s.setMark id .done).mark x = .done := fun x hx => by
    simp [hx]
  exact
    { nodup := hnodup.2
      onPath_iff := fun x => by
        by_cases hx : x = id
        · simpa [hx, nodes] using hnodup.1
        · have hiff := h.onPath_iff x
          rw [hnodes] at hiff
          simpa [hx, nodes] using hiff
      done := fun x hx => by
        by_cases hid : x = id
        · subst hid
          exact .intro _ fun b hb => h.done b (hlooked.all hall b hb)
        · exact h.done x (by simpa [hid] using hx)
      follows := hfollows.2.imp fun _ _ hf => hf.mono hmono
      looked := fun f hf x hx => by
        rcases (hfollows.1 f hf).2 x hx with hd | heq
        · exact .inl (hmono x hd)
        · exact .inl (by simp [← Option.some.inj heq])
      started := fun x hx hstart => by
        by_cases hid : x = id
        · simp [hid]
        · simpa [hid] using h.started x hx hstart }

theorem Sound.step (h : Sound g s) (hstep : Step g s s') : Sound g s' := by
  cases hstep with
  | @start id starts mark hnew =>
    have hm : Marked g ⟨starts, mark, []⟩ := ⟨h.nodup, h.onPath_iff, h.done⟩
    refine .enter hm hnew List.isChain_nil (by simp) fun x hx hstart => ?_
    by_cases hid : x = id
    · exact .inl hid
    · exact .inr (h.started x hx (by simp [hid, hstart]))
  | @skip id starts mark hmark =>
    refine ⟨⟨h.nodup, h.onPath_iff, h.done⟩, h.follows, h.looked, fun x hx hstart => ?_⟩
    by_cases hid : x = id
    · exact hid ▸ hmark
    · exact h.started x hx (by simp [hid, hstart])
  | leave hall => exact h.leave rfl hall
  | @advance starts mark id looked path next hnext hnew =>
    have hm : Marked g ⟨starts, mark, (id, looked + 1) :: path⟩ := ⟨h.nodup, h.onPath_iff, h.done⟩
    have hfollows := List.isChain_cons.mp h.follows
    refine .enter hm hnew (List.isChain_cons.mpr hfollows) ?_ fun x hx hstart =>
      .inr (h.started x hx hstart)
    rintro f ⟨⟩
    exact ⟨leads_of_getElem? hnext, (h.looked _ rfl).next hnext (.inr rfl)⟩
  | @pass starts mark id looked path next hnext hmark hclear =>
    have hfollows := List.isChain_cons.mp h.follows
    have hdone : mark next = .done := by
      cases hm : mark next with
      | new => exact absurd hm hmark
      | onPath => exact absurd ((h.onPath_iff next).mp hm) (hclear hm)
      | done => rfl
    refine ⟨⟨h.nodup, h.onPath_iff, h.done⟩, List.isChain_cons.mpr hfollows, ?_, h.started⟩
    rintro f ⟨⟩
    exact (h.looked _ rfl).next hnext (.inl hdone)

/-! ### The end of a search -/

/-- What the last turn may find. -/
theorem step_ends {cycle : Option (List String)} (h : s.step g = .ends cycle) :
    (s.path = [] ∧ s.starts = [] ∧ cycle = none) ∨
      ∃ id next, s.nodes.head? = some id ∧ g.Leads id next ∧ next ∈ s.nodes ∧
        cycle = some (next :: (s.nodes.takeWhile (· ≠ next)).reverse ++ [next]) := by
  obtain ⟨starts, mark, path⟩ := s
  match path, starts with
  | [], [] =>
    simp only [step, Turn.ends.injEq] at h
    exact .inl ⟨rfl, rfl, h.symm⟩
  | [], id :: starts => simp [step] at h
  | (id, looked) :: path, starts =>
    cases hnext : (g.successors id)[looked]? with
    | none => simp [step, hnext] at h
    | some next =>
      cases hmark : mark next with
      | new => simp [step, hnext, hmark] at h
      | done => simp [step, hnext, hmark] at h
      | onPath =>
        simp only [step, hnext, hmark] at h
        split at h
        · rename_i cycle' hcycle
          cases h
          unfold cycle? at hcycle
          split at hcycle
          · rename_i hmem
            cases hcycle
            exact .inr ⟨id, next, rfl, leads_of_getElem? hnext, hmem, rfl⟩
          · cases hcycle
        · cases h

/-- Neighbours on the path are joined by edges, from the earlier node to the later one. -/
theorem Sound.isChain_nodes (h : Sound g s) : s.nodes.IsChain (flip g.Leads) :=
  (List.isChain_map _).mpr (h.follows.imp fun _ _ hf => hf.1)

theorem takeWhile_append_isPrefix {id : String} {l : List String} (h : id ∈ l) :
    l.takeWhile (· ≠ id) ++ [id] <+: l := by
  induction l with
  | nil => simp at h
  | cons a l ih =>
    by_cases ha : a = id
    · simp [ha]
    · simpa [ha] using ih ((List.mem_cons.mp h).resolve_left (Ne.symm ha))

/-- An edge from the last node on the path back to one of its nodes closes a cycle. -/
theorem Sound.isCycle (h : Sound g s) {id next : String} (hid : s.nodes.head? = some id)
    (hleads : g.Leads id next) (hnext : next ∈ s.nodes) :
    g.IsCycle (next :: (s.nodes.takeWhile (· ≠ next)).reverse ++ [next]) := by
  -- The way back from the last node to `next`, in the order of the path.
  obtain ⟨way, hway⟩ : ∃ way, way = s.nodes.takeWhile (· ≠ next) ++ [next] := ⟨_, rfl⟩
  have hprefix : way <+: s.nodes := hway ▸ takeWhile_append_isPrefix hnext
  have hreverse : next :: (s.nodes.takeWhile (· ≠ next)).reverse = way.reverse := by simp [hway]
  have hlast : way.getLast? = some next := by simp [hway]
  have hhead : way.head? = some id := by
    obtain ⟨rest, hrest⟩ := hprefix
    rw [← hid, ← hrest, List.head?_append_of_ne_nil _ (by simp [hway])]
  have hchain : way.IsChain (flip g.Leads) := List.IsChain.prefix h.isChain_nodes hprefix
  rw [hreverse]
  exact
    { two_le := by simp [hway]
      closed := by
        rw [List.head?_append_of_ne_nil _ (by simp [hway]), List.head?_reverse, hlast]
        simp
      nodup := by
        rw [List.dropLast_concat]
        exact List.nodup_reverse.mpr (h.nodup.sublist hprefix.sublist)
      leads := by
        refine List.isChain_append.mpr
          ⟨List.isChain_reverse.mpr hchain, List.isChain_singleton _, fun x hx y hy => ?_⟩
        rw [List.getLast?_reverse, hhead] at hx
        obtain rfl : id = x := by simpa using hx
        obtain rfl : next = y := by simpa using hy
        exact hleads }

/-- One turn of the search after another. -/
def GoesOn (g : Graph) (s s' : Search) : Prop := s.step g = .goesOn s'

/-- No search goes on for ever. -/
theorem wellFounded_goesOn (g : Graph) : WellFounded fun s' s => GoesOn g s s' :=
  Subrelation.wf (fun h => (step_goesOn h).work_lt) (measure (work g)).wf

/-- A search comes to its end after some turns. -/
theorem exists_end (g : Graph) (s : Search) :
    ∃ last, Relation.ReflTransGen (GoesOn g) s last ∧ last.step g = .ends (s.run g) := by
  fun_induction run g s with
  | case1 s cycle hstep => exact ⟨s, .refl, hstep⟩
  | case2 s s' hstep ih =>
    obtain ⟨last, hlast, hend⟩ := ih
    exact ⟨last, .head hstep hlast, hend⟩

theorem Sound.of_goesOn (h : Sound g s) {last : Search}
    (hlast : Relation.ReflTransGen (GoesOn g) s last) : Sound g last := by
  induction hlast with
  | refl => exact h
  | tail _ hstep ih => exact ih.step (step_goesOn hstep)

/-- A search that ends without a cycle is done with every node. -/
theorem Sound.acyclic (h : Sound g s) (hpath : s.path = []) (hstarts : s.starts = []) :
    g.Acyclic := by
  intro id hcycle
  obtain ⟨a, -, ha⟩ := Relation.TransGen.tail'_iff.mp hcycle
  have hmark : s.mark id = .done := by
    cases hm : s.mark id with
    | new => exact absurd hm (h.started id ha.target (by simp [hstarts]))
    | onPath => simpa [nodes, hpath] using (h.onPath_iff id).mp hm
    | done => rfl
  exact not_transGen_of_acc (h.done id hmark) hcycle

end Search

variable {g : Graph}

theorem exists_findCycle (g : Graph) :
    ∃ last : Search, last.Sound g ∧ last.step g = .ends g.findCycle := by
  obtain ⟨last, hlast, hend⟩ := Search.exists_end g (.initial g)
  exact ⟨last, (Search.sound_initial g).of_goesOn hlast, hend⟩

theorem findCycle_isCycle {path : List String} (h : g.findCycle = some path) : g.IsCycle path := by
  obtain ⟨last, hsound, hend⟩ := exists_findCycle g
  rw [h] at hend
  rcases Search.step_ends hend with ⟨-, -, hnone⟩ | ⟨id, next, hid, hleads, hnext, hcycle⟩
  · cases hnone
  · cases hcycle
    exact hsound.isCycle hid hleads hnext

theorem findCycle_eq_none_iff : g.findCycle = none ↔ g.Acyclic := by
  constructor
  · intro h
    obtain ⟨last, hsound, hend⟩ := exists_findCycle g
    rw [h] at hend
    rcases Search.step_ends hend with ⟨hpath, hstarts, -⟩ | ⟨id, next, -, -, -, hcycle⟩
    · exact hsound.acyclic hpath hstarts
    · cases hcycle
  · intro h
    cases hcycle : g.findCycle with
    | none => rfl
    | some path => exact absurd h (findCycle_isCycle hcycle).not_acyclic

/-- The search for a cycle never goes on for ever, and comes from its first turn to its answer; it
finds none exactly in a graph without cycles, and what it finds is a cycle. -/
theorem findCycle_decides (g : Graph) :
    (WellFounded fun s' s => Search.GoesOn g s s') ∧
      (∃ last, Relation.ReflTransGen (Search.GoesOn g) (.initial g) last ∧
        last.step g = .ends g.findCycle) ∧
      (g.findCycle = none ↔ g.Acyclic) ∧
      ∀ path, g.findCycle = some path → g.IsCycle path :=
  ⟨Search.wellFounded_goesOn g, Search.exists_end g (.initial g), findCycle_eq_none_iff,
    fun _ => findCycle_isCycle⟩

/-- A cycle that the first node leads to, and a graph in which two ways meet again. -/
theorem findCycle_decides_tail :
    (ofParts ["a", "b", "c"] [("a", "b"), ("b", "c"), ("c", "b")]).IsCycle ["b", "c", "b"] ∧
      (ofParts ["a", "b", "c"] [("a", "b"), ("a", "c"), ("b", "c")]).Acyclic :=
  ⟨(findCycle_decides _).2.2.2 _ (by decide +kernel), (findCycle_decides _).2.2.1.mp
    (by decide +kernel)⟩

end Flowline.Graph
