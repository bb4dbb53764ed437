import Flowline.Graph.Basic

/-! Search for cycles: a depth-first search that keeps its path on a stack of its own and takes one
turn after another. -/
namespace Flowline.Graph

/-! ### Totals that get smaller -/

section Total
variable {α : Type} {l : List α} {f f' : α → Nat}

/-- What the members of a list add up to. -/
def total (l : List α) (f : α → Nat) : Nat := l.foldr (fun a n => f a + n) 0

@[simp] theorem total_nil : total [] f = 0 := rfl

@[simp] theorem total_cons {a : α} : total (a :: l) f = f a + total l f := rfl

theorem total_le (h : ∀ a ∈ l, f' a ≤ f a) : total l f' ≤ total l f := by
  induction l with
  | nil => simp
  | cons a l ih =>
    have ha := h a List.mem_cons_self
    have hl := ih fun b hb => h b (List.mem_cons_of_mem _ hb)
    simp only [total_cons]
    omega

/-- One summand that gets smaller by `k` makes the total smaller by `k`. -/
theorem total_add_le {a : α} {k : Nat} (ha : a ∈ l) (hk : f' a + k ≤ f a)
    (h : ∀ b ∈ l, f' b ≤ f b) : total l f' + k ≤ total l f := by
  induction l with
  | nil => simp at ha
  | cons b l ih =>
    have hb := h b List.mem_cons_self
    have hl : ∀ c ∈ l, f' c ≤ f c := fun c hc => h c (List.mem_cons_of_mem _ hc)
    simp only [total_cons]
    rcases List.mem_cons.mp ha with rfl | ha
    · have hrest := total_le hl
      omega
    · have hrest := ih ha hl
      omega

end Total

/-! ### The search -/

/-- How far a search is with a node. -/
inductive Mark where
  | new
  | onPath
  | done
deriving DecidableEq

structure Search where
  /-- The nodes that are left to start from. -/
  starts : List String
  mark : String → Mark
  /-- The nodes on the path, the latest first, each with the number of its dependents that were
  looked at. -/
  path : List (String × Nat)

namespace Search

/-- What a turn of a search leads to. -/
inductive Turn where
  | goesOn (s : Search)
  | ends (cycle : Option (List String))

def initial (g : Graph) : Search := ⟨g.ids, fun _ => .new, []⟩

/-- The nodes on the path, the latest first. -/
def nodes (s : Search) : List String := s.path.map (·.1)

def setMark (s : Search) (id : String) (m : Mark) : Search :=
  { s with mark := fun x => if x = id then m else s.mark x }

/-- Goes on from a new node. -/
def enter (s : Search) (id : String) : Search :=
  { s.setMark id .onPath with path := (id, 0) :: s.path }

@[simp] theorem mark_setMark (s : Search) (id : String) (m : Mark) (x : String) :
    (s.setMark id m).mark x = if x = id then m else s.mark x := rfl

@[simp] theorem mark_enter (s : Search) (id x : String) :
    (s.enter id).mark x = if x = id then .onPath else s.mark x := rfl

@[simp] theorem nodes_enter (s : Search) (id : String) : (s.enter id).nodes = id :: s.nodes := rfl

/-- The way from a node along the path and back to it. -/
def cycle? (s : Search) (id : String) : Option (List String) :=
  if id ∈ s.nodes then some (id :: (s.nodes.takeWhile (· ≠ id)).reverse ++ [id]) else none

/-- Off the path the search starts anew. On it the last node is left when all its dependents were
looked at; its next dependent is entered if it is new, and closes a cycle if it is on the path. -/
def step (g : Graph) (s : Search) : Turn :=
  match s.path with
  | [] =>
    match s.starts with
    | [] => .ends none
    | id :: starts =>
      let s := { s with starts }
      .goesOn (if s.mark id = .new then s.enter id else s)
  | (id, looked) :: path =>
    match (g.successors id)[looked]? with
    | none => .goesOn { s.setMark id .done with path }
    | some next =>
      let s := { s with path := (id, looked + 1) :: path }
      match s.mark next with
      | .new => .goesOn (s.enter next)
      | .onPath =>
        match s.cycle? next with
        | some cycle => .ends (some cycle)
        | none => .goesOn s
      | .done => .goesOn s

/-- What a turn that goes on may do. -/
inductive Step (g : Graph) : Search → Search → Prop where
  | start {id starts mark} (hnew : mark id = .new) :
      Step g ⟨id :: starts, mark, []⟩ (enter ⟨starts, mark, []⟩ id)
  | skip {id starts mark} (hmark : mark id ≠ .new) :
      Step g ⟨id :: starts, mark, []⟩ ⟨starts, mark, []⟩
  | leave {starts mark id looked path} (hall : (g.successors id)[looked]? = none) :
      Step g ⟨starts, mark, (id, looked) :: path⟩
        { setMark ⟨starts, mark, (id, looked) :: path⟩ id .done with path }
  | advance {starts mark id looked path next} (hnext : (g.successors id)[looked]? = some next)
      (hnew : mark next = .new) :
      Step g ⟨starts, mark, (id, looked) :: path⟩
        (enter ⟨starts, mark, (id, looked + 1) :: path⟩ next)
  | pass {starts mark id looked path next} (hnext : (g.successors id)[looked]? = some next)
      (hmark : mark next ≠ .new)
      (hclear : mark next = .onPath → next ∉ nodes ⟨starts, mark, (id, looked + 1) :: path⟩) :
      Step g ⟨starts, mark, (id, looked) :: path⟩ ⟨starts, mark, (id, looked + 1) :: path⟩

theorem cycle?_eq_none {s : Search} {id : String} (h : s.cycle? id = none) : id ∉ s.nodes := by
  intro hid
  simp [cycle?, hid] at h

theorem step_goesOn {g : Graph} {s s' : Search} (h : s.step g = .goesOn s') : Step g s s' := by
  obtain ⟨starts, mark, path⟩ := s
  match path, starts with
  | [], [] => simp [step] at h
  | [], id :: starts =>
    by_cases hnew : mark id = .new
    · simp only [step, hnew, if_true, Turn.goesOn.injEq] at h
      exact h ▸ .start hnew
    · simp only [step, hnew, if_false, Turn.goesOn.injEq] at h
      exact h ▸ .skip hnew
  | (id, looked) :: path, starts =>
    cases hnext : (g.successors id)[looked]? with
    | none =>
      simp only [step, hnext, Turn.goesOn.injEq] at h
      exact h ▸ .leave hnext
    | some next =>
      cases hmark : mark next with
      | new =>
        simp only [step, hnext, hmark, Turn.goesOn.injEq] at h
        exact h ▸ .advance hnext hmark
      | done =>
        simp only [step, hnext, hmark, Turn.goesOn.injEq] at h
        exact h ▸ .pass hnext (by simp [hmark]) (by simp [hmark])
      | onPath =>
        simp only [step, hnext, hmark] at h
        split at h
        · cases h
        · rename_i hclear
          cases h
          exact .pass hnext (by simp [hmark]) fun _ => cycle?_eq_none hclear

/-! ### Its end -/

/-- The work that entering a node brings. -/
def entryWork (g : Graph) (id : String) : Nat := (g.successors id).length + 2

/-- The work that is left on the path: dependents to look at, and nodes to leave. -/
def pathWork (g : Graph) (path : List (String × Nat)) : Nat :=
  total path fun f => (g.successors f.1).length - f.2 + 1

def newWork (g : Graph) (mark : String → Mark) : Nat :=
  total g.ids fun id => if mark id = .new then entryWork g id else 0

/-- A bound on the turns to come. -/
def work (g : Graph) (s : Search) : Nat :=
  total s.starts (entryWork g) + pathWork g s.path + newWork g s.mark

theorem newWork_setMark_le (g : Graph) (s : Search) (id : String) {m : Mark} (hm : m ≠ .new) :
    newWork g (s.setMark id m).mark ≤ newWork g s.mark := by
  refine total_le fun x _ => ?_
  by_cases hx : x = id
  · simp [hx, hm]
  · simp [hx]

theorem newWork_setMark_add_le {g : Graph} {s : Search} {id : String} {m : Mark} (hm : m ≠ .new)
    (hid : id ∈ g.ids) (hnew : s.mark id = .new) :
    newWork g (s.setMark id m).mark + entryWork g id ≤ newWork g s.mark := by
  refine total_add_le hid ?_ fun x _ => ?_
  · simp [hm, hnew]
  · by_cases hx : x = id
    · simp [hx, hm]
    · simp [hx]

theorem Step.work_lt {g : Graph} {s s' : Search} (h : Step g s s') : s'.work g < s.work g := by
  cases h with
  | @start id starts mark hnew =>
    have hle := newWork_setMark_le g ⟨starts, mark, []⟩ id (m := .onPath) (by decide)
    simp only [work, enter, setMark, pathWork, entryWork, total_cons] at hle ⊢
    omega
  | skip hmark =>
    simp only [work, entryWork, total_cons]
    omega
  | @leave starts mark id looked path hall =>
    have hle :=
      newWork_setMark_le g ⟨starts, mark, (id, looked) :: path⟩ id (m := .done) (by decide)
    simp only [work, setMark, pathWork, total_cons] at hle ⊢
    omega
  | @advance starts mark id looked path next hnext hnew =>
    have hlt := (List.getElem?_eq_some_iff.mp hnext).1
    have hid : next ∈ g.ids := (List.mem_filter.mp (List.mem_of_getElem? hnext)).1
    have hle := newWork_setMark_add_le (s := ⟨starts, mark, (id, looked + 1) :: path⟩)
      (m := .onPath) (by decide) hid hnew
    simp only [work, enter, setMark, pathWork, entryWork, total_cons] at hle ⊢
    omega
  | @pass starts mark id looked path next hnext =>
    have hlt := (List.getElem?_eq_some_iff.mp hnext).1
    simp only [work, pathWork, total_cons]
    omega

/-- Searches to the end. -/
def run (g : Graph) (s : Search) : Option (List String) :=
  match _h : s.step g with
  | .ends cycle => cycle
  | .goesOn s' => run g s'
termination_by s.work g
decreasing_by exact (step_goesOn _h).work_lt

end Search

/-- The first cycle that a search in order of declaration meets; its ends are equal. -/
def findCycle (g : Graph) : Option (List String) := (Search.initial g).run g

end Flowline.Graph
