import Flowline.Graph.Search

/-! Orders of execution: every node after its dependencies. Ready nodes wait in a queue, so ties go
to the node declared first; where no order exists a search finds a cycle. -/
namespace Flowline.Graph

/-- Nodes on their way into an order. -/
structure Taking where
  /-- How many dependencies of a node were not taken yet. -/
  missing : String → Nat
  /-- The nodes that miss none, in the order in which they became ready. -/
  queue : List String
  /-- The nodes that were taken from the queue, the latest first. -/
  taken : List String

namespace Taking

def initial (g : Graph) : Taking where
  missing id := (g.predecessors id).length
  queue := g.ids.filter fun id => (g.predecessors id).length = 0
  taken := []

/-- A dependency of the node was taken. With the last one it joins the queue. -/
def supply (t : Taking) (id : String) : Taking :=
  match t.missing id with
  | 0 => t
  | left + 1 =>
    { t with
      missing := fun x => if x = id then left else t.missing x
      queue := if left = 0 then t.queue ++ [id] else t.queue }

theorem missing_supply (t : Taking) (id x : String) :
    (t.supply id).missing x = if x = id then t.missing x - 1 else t.missing x := by
  unfold supply
  by_cases hx : x = id
  · subst hx
    cases h : t.missing x <;> simp [h]
  · cases h : t.missing id <;> simp [hx]

theorem queue_supply (t : Taking) (id : String) :
    (t.supply id).queue = if t.missing id = 1 then t.queue ++ [id] else t.queue := by
  unfold supply
  cases h : t.missing id <;> simp

@[simp] theorem taken_supply (t : Taking) (id : String) : (t.supply id).taken = t.taken := by
  unfold supply
  cases t.missing id <;> rfl

/-- Takes the first node of the queue. -/
def take? (g : Graph) (t : Taking) : Option Taking :=
  match t.queue with
  | [] => none
  | id :: queue =>
    some ((g.successors id).foldl supply { t with queue, taken := id :: t.taken })

/-- A bound on the nodes that can be taken. -/
def work (g : Graph) (t : Taking) : Nat := total g.ids t.missing + t.queue.length

theorem work_supply_le {g : Graph} {t : Taking} {id : String} (hid : id ∈ g.ids) :
    (t.supply id).work g ≤ t.work g := by
  unfold supply
  split
  · exact Nat.le_refl _
  · rename_i left hleft
    have hsum : total g.ids (fun x => if x = id then left else t.missing x) + 1 ≤
        total g.ids t.missing := by
      refine total_add_le hid (by simp [hleft]) fun x _ => ?_
      by_cases hx : x = id
      · simp [hx, hleft]
      · simp [hx]
    have hqueue : (if left = 0 then t.queue ++ [id] else t.queue).length ≤ t.queue.length + 1 := by
      split <;> simp
    simp only [work]
    omega

theorem work_foldl_supply_le {g : Graph} {t : Taking} {ids : List String}
    (hids : ∀ id ∈ ids, id ∈ g.ids) : (ids.foldl supply t).work g ≤ t.work g := by
  induction ids generalizing t with
  | nil => exact Nat.le_refl _
  | cons id ids ih =>
    exact Nat.le_trans (ih fun x hx => hids x (List.mem_cons_of_mem _ hx))
      (work_supply_le (hids id List.mem_cons_self))

theorem work_take? {g : Graph} {t t' : Taking} (h : t.take? g = some t') :
    t'.work g < t.work g := by
  unfold take? at h
  split at h
  · cases h
  · rename_i id queue hqueue
    cases h
    refine Nat.lt_of_le_of_lt (work_foldl_supply_le fun x hx => (List.mem_filter.mp hx).1) ?_
    simp [work, hqueue]

/-- Takes nodes as long as some are ready. -/
def run (g : Graph) (t : Taking) : Taking :=
  match _h : t.take? g with
  | none => t
  | some t' => run g t'
termination_by t.work g
decreasing_by exact work_take? _h

end Taking

/-- An order of execution, or a cycle that excludes one. -/
def topologicalOrder (g : Graph) : Except (List String) (List String) :=
  let last := (Taking.initial g).run g
  let order := last.taken.reverse
  if order.length < g.size then
    .error (g.findCycle.getD (g.ids.filter fun id => 0 < last.missing id))
  else .ok order

/-- What is wrong with a proposed order. -/
inductive OrderFault where
  | count (entries nodes : Nat)
  | unknown (id : String)
  | repeated (id : String)
  | reversed (node dependency : String)
deriving DecidableEq

def OrderFault.message : OrderFault → String
  | count entries nodes => s!"execution order has {entries} entries for {nodes} nodes"
  | unknown id => s!"execution order names unknown node '{id}'"
  | repeated id => s!"execution order lists '{id}' twice"
  | reversed node dependency => s!"'{node}' is ordered before its dependency '{dependency}'"

/-- The first entry that is unknown or was listed before. -/
def entryFault? (g : Graph) : List String → List String → Option OrderFault
  | _, [] => none
  | seen, id :: rest =>
    if !g.contains id then some (.unknown id)
    else if seen.contains id then some (.repeated id)
    else entryFault? g (id :: seen) rest

/-- The first edge that leads backwards in the order. -/
def reversedEdge? (g : Graph) (order : List String) : Option OrderFault :=
  g.ids.findSome? fun a => (g.successors a).findSome? fun b =>
    if order.idxOf b < order.idxOf a then some (.reversed b a) else none

/-- Whether the order lists every node once and after its dependencies. -/
def checkOrder (g : Graph) (order : List String) : Except OrderFault Unit :=
  if order.length ≠ g.size then .error (.count order.length g.size)
  else match g.entryFault? [] order with
    | some fault => .error fault
    | none => match g.reversedEdge? order with
      | some fault => .error fault
      | none => .ok ()

end Flowline.Graph
