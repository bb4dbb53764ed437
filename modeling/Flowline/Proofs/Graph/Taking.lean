import Flowline.Graph.Order
import Flowline.Proofs.Graph.Basic
import Mathlib.Data.List.Infix

/-!
# Taking ready nodes

While nodes are taken, the count of a node is that of its dependencies that were not taken. So no
count is lowered that is zero, and a node joins the queue when its last dependency is taken. When no
node is ready, each that is left waits for another one that is left.
-/
namespace Flowline.Graph

namespace Taking

variable {g : Graph} {t : Taking}

/-- What holds while nodes are taken: no node waits or is taken twice, the counts are right, a node
is ready when all its dependencies are taken, and was taken after them. -/
structure Sound (g : Graph) (t : Taking) : Prop where
  nodup : (t.queue ++ t.taken).Nodup
  known : ∀ x ∈ t.queue ++ t.taken, x ∈ g.ids
  counts : ∀ x, t.missing x = ((g.predecessors x).filter (· ∉ t.taken)).length
  ready_iff : ∀ x ∈ g.ids, x ∈ t.queue ++ t.taken ↔ ∀ p ∈ g.predecessors x, p ∈ t.taken
  closed : ∀ x earlier, x :: earlier <:+ t.taken → ∀ p ∈ g.predecessors x, p ∈ earlier

theorem sound_initial (hg : g.WellFormed) : Sound g (initial g) where
  nodup := by simpa [initial] using hg.ids_nodup.filter _
  known x hx := by
    simp only [initial, List.append_nil] at hx
    exact (List.mem_filter.mp hx).1
  counts x := by simp [initial]
  ready_iff x hx := by
    simp [initial, hx, List.eq_nil_iff_forall_not_mem]
  closed := by simp [initial]

/-! #### One node -/

/-- The state in which the first node of the queue was taken. -/
def next (g : Graph) (t : Taking) (id : String) (queue : List String) : Taking :=
  (g.successors id).foldl supply { t with queue, taken := id :: t.taken }

theorem take?_eq_some_iff {t' : Taking} :
    t.take? g = some t' ↔ ∃ id queue, t.queue = id :: queue ∧ t' = t.next g id queue := by
  unfold take?
  split
  · rename_i hqueue
    simp [hqueue]
  · rename_i id queue hqueue
    simp [hqueue, next, eq_comm]

theorem taken_foldl_supply (ids : List String) (t : Taking) :
    (ids.foldl supply t).taken = t.taken := by
  induction ids generalizing t with
  | nil => rfl
  | cons id ids ih => rw [List.foldl_cons, ih, taken_supply]

theorem missing_foldl_supply {ids : List String} (hids : ids.Nodup) (t : Taking) (x : String) :
    (ids.foldl supply t).missing x = if x ∈ ids then t.missing x - 1 else t.missing x := by
  induction ids generalizing t with
  | nil => simp
  | cons id ids ih =>
    obtain ⟨hnew, hrest⟩ := List.nodup_cons.mp hids
    rw [List.foldl_cons, ih hrest, missing_supply]
    by_cases hx : x = id
    · subst hx
      simp [hnew]
    · simp [hx]

theorem queue_foldl_supply {ids : List String} (hids : ids.Nodup) (t : Taking) :
    (ids.foldl supply t).queue = t.queue ++ ids.filter (t.missing · = 1) := by
  induction ids generalizing t with
  | nil => simp
  | cons id ids ih =>
    obtain ⟨hnew, hrest⟩ := List.nodup_cons.mp hids
    have hsame : ids.filter ((t.supply id).missing · = 1) = ids.filter (t.missing · = 1) := by
      refine List.filter_congr fun x hx => ?_
      have hne : x ≠ id := fun heq => hnew (heq ▸ hx)
      simp [missing_supply, hne]
    rw [List.foldl_cons, ih hrest, queue_supply, hsame]
    by_cases hid : t.missing id = 1 <;> simp [hid]

theorem missing_next (hg : g.WellFormed) (t : Taking) (id : String) (queue : List String)
    (x : String) : (t.next g id queue).missing x =
      if x ∈ g.successors id then t.missing x - 1 else t.missing x :=
  missing_foldl_supply (hg.successors_nodup id) _ x

theorem queue_next (hg : g.WellFormed) (t : Taking) (id : String) (queue : List String) :
    (t.next g id queue).queue = queue ++ (g.successors id).filter (t.missing · = 1) :=
  queue_foldl_supply (hg.successors_nodup id) _

theorem taken_next (g : Graph) (t : Taking) (id : String) (queue : List String) :
    (t.next g id queue).taken = id :: t.taken := taken_foldl_supply _ _

/-- The dependents of `id` that have all their dependencies once `id` is taken. -/
def released (g : Graph) (id : String) (taken : List String) : List String :=
  (g.successors id).filter fun x => (g.predecessors x).all fun p => (id :: taken).contains p

theorem mem_released (hg : g.WellFormed) {id x : String} {taken : List String} :
    x ∈ released g id taken ↔ id ∈ g.predecessors x ∧ ∀ p ∈ g.predecessors x, p ∈ id :: taken := by
  simp only [released, List.mem_filter, List.all_eq_true, List.contains_iff_mem,
    hg.mem_predecessors_iff (a := id), Leads]

namespace Sound

variable {id x : String} {queue : List String}

theorem not_mem_taken (h : t.Sound g) (hqueue : t.queue = id :: queue) : id ∉ t.taken := by
  have hnd := h.nodup
  rw [hqueue, List.cons_append, List.nodup_cons] at hnd
  exact fun hid => hnd.1 (List.mem_append_right _ hid)

theorem mem_untaken (h : t.Sound g) (hg : g.WellFormed) (hqueue : t.queue = id :: queue)
    (hx : x ∈ g.successors id) : id ∈ (g.predecessors x).filter (· ∉ t.taken) :=
  List.mem_filter.mpr ⟨hg.mem_predecessors_iff.mpr hx, by simpa using h.not_mem_taken hqueue⟩

/-- Taking a node lowers the counts of those that depend on it by one. -/
theorem length_untaken (h : t.Sound g) (hg : g.WellFormed) (hqueue : t.queue = id :: queue)
    (x : String) : ((g.predecessors x).filter (· ∉ id :: t.taken)).length =
      if x ∈ g.successors id then t.missing x - 1 else t.missing x := by
  have hsplit : (g.predecessors x).filter (· ∉ id :: t.taken) =
      ((g.predecessors x).filter (· ∉ t.taken)).filter (· ≠ id) := by
    rw [List.filter_filter]
    refine List.filter_congr fun p _ => ?_
    simp [not_or]
  have huntaken := (hg.predecessors_nodup x).filter (· ∉ t.taken)
  rw [hsplit, h.counts]
  by_cases hx : x ∈ g.successors id
  · rw [if_pos hx, ← List.length_erase_of_mem (h.mem_untaken hg hqueue hx),
      huntaken.erase_eq_filter id]
    refine congrArg List.length (List.filter_congr fun p _ => ?_)
    by_cases hp : p = id <;> simp [hp]
  · have hmem : id ∉ g.predecessors x := fun hp => hx (hg.mem_predecessors_iff.mp hp)
    rw [if_neg hx, List.filter_eq_self.mpr]
    intro p hp
    have hne : p ≠ id := fun heq => hmem (heq ▸ (List.mem_filter.mp hp).1)
    simpa using hne

/-- No count is lowered that is zero already. -/
theorem missing_pos (h : t.Sound g) (hg : g.WellFormed) (hqueue : t.queue = id :: queue)
    (hx : x ∈ g.successors id) : 0 < t.missing x := by
  rw [h.counts]
  exact List.length_pos_of_mem (h.mem_untaken hg hqueue hx)

/-- The nodes that join the queue are those whose last dependency was taken. -/
theorem missing_eq_one_iff (h : t.Sound g) (hg : g.WellFormed) (hqueue : t.queue = id :: queue)
    (hx : x ∈ g.successors id) :
    t.missing x = 1 ↔ ∀ p ∈ g.predecessors x, p ∈ id :: t.taken := by
  have hpos := h.missing_pos hg hqueue hx
  have hlength := h.length_untaken hg hqueue x
  rw [if_pos hx] at hlength
  have hone : t.missing x = 1 ↔ ((g.predecessors x).filter (· ∉ id :: t.taken)).length = 0 := by
    omega
  rw [hone, List.length_eq_zero_iff, List.filter_eq_nil_iff]
  simp only [decide_not, Bool.not_eq_true', decide_eq_false_iff_not, not_not]

theorem queue_next_eq (h : t.Sound g) (hg : g.WellFormed) (hqueue : t.queue = id :: queue) :
    (t.next g id queue).queue = queue ++ released g id t.taken := by
  rw [queue_next hg, released]
  refine congrArg (queue ++ ·) (List.filter_congr fun x hx => ?_)
  rw [Bool.eq_iff_iff, decide_eq_true_eq, h.missing_eq_one_iff hg hqueue hx]
  simp only [List.all_eq_true, List.contains_iff_mem]

/-- What is released waited for the node that was taken: it was neither in the queue nor taken. -/
theorem not_mem_of_released (h : t.Sound g) (hg : g.WellFormed) (hqueue : t.queue = id :: queue)
    (hx : x ∈ released g id t.taken) : x ∉ t.queue ++ t.taken := by
  intro hmem
  have hready := (h.ready_iff x (h.known x hmem)).mp hmem
  exact h.not_mem_taken hqueue (hready id ((mem_released hg).mp hx).1)

/-- Taking a node adds what it releases to the nodes that were seen, and nothing else. -/
theorem perm_next (h : t.Sound g) (hg : g.WellFormed) (hqueue : t.queue = id :: queue) :
    ((t.next g id queue).queue ++ (t.next g id queue).taken).Perm
      (released g id t.taken ++ (t.queue ++ t.taken)) := by
  rw [h.queue_next_eq hg hqueue, taken_next, hqueue, List.append_assoc]
  refine (List.perm_append_comm_assoc _ _ _).trans (List.Perm.append_left _ ?_)
  exact List.perm_middle

theorem next (h : t.Sound g) (hg : g.WellFormed) (hqueue : t.queue = id :: queue) :
    (t.next g id queue).Sound g := by
  have hperm := h.perm_next hg hqueue
  have hid : id ∈ t.queue ++ t.taken := by simp [hqueue]
  exact
    { nodup := by
        rw [hperm.nodup_iff, List.nodup_append]
        refine ⟨(hg.successors_nodup id).filter _, h.nodup, fun a ha b hb hab => ?_⟩
        exact h.not_mem_of_released hg hqueue ha (hab ▸ hb)
      known := fun y hy => by
        rcases List.mem_append.mp (hperm.mem_iff.mp hy) with hy | hy
        · exact (hg.mem_predecessors_iff.mp ((mem_released hg).mp hy).1).target
        · exact h.known y hy
      counts := fun y => by
        rw [missing_next hg, taken_next, h.length_untaken hg hqueue]
      ready_iff := fun y hy => by
        rw [hperm.mem_iff, List.mem_append, mem_released hg, h.ready_iff y hy, taken_next]
        constructor
        · rintro (hy | hy)
          · exact hy.2
          · exact fun p hp => List.mem_cons_of_mem _ (hy p hp)
        · intro hall
          by_cases hwaits : id ∈ g.predecessors y
          · exact .inl ⟨hwaits, hall⟩
          · refine .inr fun p hp => (List.mem_cons.mp (hall p hp)).resolve_left fun heq => ?_
            exact hwaits (heq ▸ hp)
      closed := fun y earlier hsuffix p hp => by
        rw [taken_next] at hsuffix
        rcases List.suffix_cons_iff.mp hsuffix with heq | hsuffix
        · obtain ⟨rfl, rfl⟩ := List.cons.inj heq
          exact (h.ready_iff y (h.known y hid)).mp hid p hp
        · exact h.closed y earlier hsuffix p hp }

end Sound

/-! #### All nodes -/

/-- What holds at first and is kept when a node is taken holds in the end, when none is ready. -/
theorem run_induction {p : Taking → Prop} (h : p t)
    (hnext : ∀ t id queue, p t → t.queue = id :: queue → p (t.next g id queue)) :
    p (t.run g) ∧ (t.run g).queue = [] := by
  fun_induction run g t with
  | case1 t hnone =>
    refine ⟨h, ?_⟩
    cases hqueue : t.queue with
    | nil => rfl
    | cons id queue => simp [take?, hqueue] at hnone
  | case2 t t' htake ih =>
    obtain ⟨id, queue, hqueue, rfl⟩ := take?_eq_some_iff.mp htake
    exact ih (hnext t id queue h hqueue)

theorem run_sound (hg : g.WellFormed) (h : t.Sound g) :
    (t.run g).Sound g ∧ (t.run g).queue = [] :=
  run_induction h fun _ _ _ ht hqueue => ht.next hg hqueue

/-- The next node is taken. -/
def Takes (g : Graph) (t t' : Taking) : Prop := t.take? g = some t'

theorem Sound.of_takes (h : t.Sound g) (hg : g.WellFormed) {t' : Taking}
    (htakes : Relation.ReflTransGen (Takes g) t t') : t'.Sound g := by
  induction htakes with
  | refl => exact h
  | tail _ htake ih =>
    obtain ⟨id, queue, hqueue, rfl⟩ := take?_eq_some_iff.mp htake
    exact ih.next hg hqueue

/-- When no node is ready, each node that was not taken waits for another one of these. -/
theorem Sound.exists_waiting (h : t.Sound g) (hg : g.WellFormed) (hqueue : t.queue = [])
    {x : String} (hx : x ∈ g.ids) (hleft : x ∉ t.taken) : ∃ p, g.Leads p x ∧ p ∉ t.taken := by
  have hready := h.ready_iff x hx
  rw [hqueue, List.nil_append] at hready
  obtain ⟨p, hp, hleft⟩ : ∃ p ∈ g.predecessors x, p ∉ t.taken := by
    by_contra hall
    exact hleft (hready.mpr fun p hp => by_contra fun hleft => hall ⟨p, hp, hleft⟩)
  exact ⟨p, hg.mem_predecessors_iff.mp hp, hleft⟩

/-- In a graph without cycles all nodes are taken. -/
theorem Sound.mem_taken (h : t.Sound g) (hg : g.WellFormed) (hqueue : t.queue = [])
    (hacyclic : g.Acyclic) {x : String} (hx : x ∈ g.ids) : x ∈ t.taken := by
  by_contra hleft
  obtain ⟨y, hy, hyleft, hfirst⟩ := hacyclic.exists_first (p := (· ∉ t.taken)) hx hleft
  obtain ⟨p, hp, hpleft⟩ := h.exists_waiting hg hqueue hy hyleft
  exact hfirst p (hg.source hp) hp hpleft

theorem idxOf_lt_idxOf_of_append {a b : String} {l₁ l₂ : List String} (ha : a ∈ l₁) (hb : b ∉ l₁) :
    (l₁ ++ b :: l₂).idxOf a < (l₁ ++ b :: l₂).idxOf b := by
  rw [List.idxOf_append, List.idxOf_append, if_pos ha, if_neg hb, List.idxOf_cons_self]
  simpa using List.idxOf_lt_length_of_mem ha

/-- Nodes are taken after all their dependencies. -/
theorem Sound.forward (h : t.Sound g) (hg : g.WellFormed) {a b : String}
    (hab : g.Leads a b) (hb : b ∈ t.taken) :
    t.taken.reverse.idxOf a < t.taken.reverse.idxOf b := by
  obtain ⟨later, earlier, hsplit⟩ := List.append_of_mem hb
  have ha : a ∈ earlier :=
    h.closed b earlier ⟨later, hsplit.symm⟩ a (hg.mem_predecessors_iff.mpr hab)
  have hnd : t.taken.Nodup := (List.nodup_append.mp h.nodup).2.1
  rw [hsplit] at hnd
  have hb' : b ∉ earlier := (List.nodup_cons.mp (List.nodup_append.mp hnd).2.1).1
  have hreverse : t.taken.reverse = earlier.reverse ++ b :: later.reverse := by simp [hsplit]
  rw [hreverse]
  exact idxOf_lt_idxOf_of_append (List.mem_reverse.mpr ha) (by simpa using hb')

end Taking

end Flowline.Graph
