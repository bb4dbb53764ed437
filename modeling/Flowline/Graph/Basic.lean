import Flowline.Document.Basic

/-! The dependency graph of a pipeline. An edge leads from a dependency to its dependent. -/
namespace Flowline

/-- Node ids in order of declaration and the edges between them, in order of insertion. -/
structure Graph where
  ids : List String
  edges : List (String × String)
deriving DecidableEq, Inhabited

namespace Graph

/-- Repeated ids and edges count once; an edge with an unknown end is dropped. -/
def ofParts (ids : List String) (edges : List (String × String)) : Graph :=
  let ids := distinct ids
  ⟨ids, distinct (edges.filter fun e => ids.contains e.1 && ids.contains e.2)⟩

def ofDeclarations (nodes : List Declaration) : Graph :=
  ofParts (nodes.map (·.id)) (nodes.flatMap fun n => n.dependencies.map fun d => (d, n.id))

def size (g : Graph) : Nat := g.ids.length

def contains (g : Graph) (id : String) : Bool := g.ids.contains id

def hasEdge (g : Graph) (a b : String) : Bool := g.edges.contains (a, b)

/-- Dependents, in order of declaration. -/
def successors (g : Graph) (id : String) : List String := g.ids.filter (g.hasEdge id)

/-- Dependencies, in order of insertion. -/
def predecessors (g : Graph) (id : String) : List String :=
  (g.edges.filter (·.2 == id)).map (·.1)

end Graph

/-! ### Adjacency tables -/

/-- The tables of a graph. Nodes are numbered in order of declaration, the index leads from ids to
numbers, and both tables have a row for every number. -/
structure Adjacency where
  ids : List String
  index : String → Option Nat
  /-- The dependents of each node. -/
  successors : List (List Nat)
  /-- The dependencies of each node. -/
  predecessors : List (List Nat)
  index_lt : ∀ id i, index id = some i → i < ids.length
  length_successors : successors.length = ids.length
  length_predecessors : predecessors.length = ids.length

namespace Adjacency

def empty : Adjacency where
  ids := []
  index _ := none
  successors := []
  predecessors := []
  index_lt _ _ h := nomatch h
  length_successors := rfl
  length_predecessors := rfl

/-- The number of an id, as one that has a row in both tables. -/
def number? (t : Adjacency) (id : String) : Option (Fin t.ids.length) :=
  (t.index id).pmap Fin.mk (t.index_lt id)

def dependents (t : Adjacency) (i : Fin t.ids.length) : List Nat :=
  t.successors.get (i.cast t.length_successors.symm)

def dependencies (t : Adjacency) (i : Fin t.ids.length) : List Nat :=
  t.predecessors.get (i.cast t.length_predecessors.symm)

/-! ### Filling the tables -/

/-- Gives an id the next number, and an empty row in each table. -/
def push (t : Adjacency) (id : String) : Adjacency where
  ids := t.ids ++ [id]
  index x := if x = id then some t.ids.length else t.index x
  successors := t.successors ++ [[]]
  predecessors := t.predecessors ++ [[]]
  index_lt x i h := by
    rw [List.length_append, List.length_singleton]
    split at h
    · cases h
      exact Nat.lt_succ_self _
    · exact Nat.lt_succ_of_lt (t.index_lt x i h)
  length_successors := by simp [t.length_successors]
  length_predecessors := by simp [t.length_predecessors]

/-- Lists two nodes as neighbours of each other. -/
def link (t : Adjacency) (a b : Nat) : Adjacency :=
  { t with
    successors := t.successors.modify a (· ++ [b])
    predecessors := t.predecessors.modify b (· ++ [a])
    length_successors := by simp [t.length_successors]
    length_predecessors := by simp [t.length_predecessors] }

/-- Sorts the dependents of each node, which are then in order of declaration. -/
def sorted (t : Adjacency) : Adjacency :=
  { t with
    successors := t.successors.map (·.mergeSort (· ≤ ·))
    length_successors := by simp [t.length_successors] }

section
variable (t : Adjacency) (id x : String) (a b : Nat)

@[simp] theorem ids_push : (t.push id).ids = t.ids ++ [id] := rfl

@[simp] theorem index_push :
    (t.push id).index x = if x = id then some t.ids.length else t.index x := rfl

@[simp] theorem successors_push : (t.push id).successors = t.successors ++ [[]] := rfl

@[simp] theorem predecessors_push : (t.push id).predecessors = t.predecessors ++ [[]] := rfl

@[simp] theorem ids_link : (t.link a b).ids = t.ids := rfl

@[simp] theorem index_link : (t.link a b).index = t.index := rfl

@[simp] theorem successors_link :
    (t.link a b).successors = t.successors.modify a (· ++ [b]) := rfl

@[simp] theorem predecessors_link :
    (t.link a b).predecessors = t.predecessors.modify b (· ++ [a]) := rfl

@[simp] theorem ids_sorted : t.sorted.ids = t.ids := rfl

@[simp] theorem index_sorted : t.sorted.index = t.index := rfl

@[simp] theorem successors_sorted :
    t.sorted.successors = t.successors.map (·.mergeSort (· ≤ ·)) := rfl

@[simp] theorem predecessors_sorted : t.sorted.predecessors = t.predecessors := rfl

end

def addId (t : Adjacency) (id : String) : Adjacency :=
  if (t.index id).isSome then t else t.push id

/-- An edge with an unknown end is dropped, and so is one that was added before. -/
def addEdge (t : Adjacency) (e : String × String) : Adjacency :=
  match t.number? e.1, t.number? e.2 with
  | some a, some b => if b.val ∈ t.dependents a then t else t.link a b
  | _, _ => t

def ofIds (ids : List String) : Adjacency := ids.foldl addId empty

/-- All ids are numbered before the first edge is added. -/
def ofParts (ids : List String) (edges : List (String × String)) : Adjacency :=
  (edges.foldl addEdge (ofIds ids)).sorted

/-! ### Neighbours by name -/

def contains (t : Adjacency) (id : String) : Bool := (t.index id).isSome

/-- The names in a row. -/
def neighbours (t : Adjacency) (row : Fin t.ids.length → List Nat) (id : String) : List String :=
  match t.number? id with
  | some i => (row i).filterMap (t.ids[·]?)
  | none => []

def successorIds (t : Adjacency) (id : String) : List String := t.neighbours t.dependents id

def predecessorIds (t : Adjacency) (id : String) : List String := t.neighbours t.dependencies id

end Adjacency
end Flowline
