import Flowline.Error

/-! What all nodes of a run share: names of the run and the datasets bound to it, and whether it has
been cancelled. -/
namespace Flowline

structure Context where
  runId : String
  pipelineId : String
  /-- Paths by dataset name. -/
  datasets : List (String × String) := []
deriving DecidableEq, Inhabited

namespace Context

def datasetParam : String := "dataset"

def dataset? (c : Context) (name : String) : Option String := c.datasets.lookup name

def bind (c : Context) (name path : String) : Context :=
  { c with datasets := (name, path) :: c.datasets }

/-- The dataset that parameters name. -/
def datasetOf? (params : Fields) : Option String := (params.get? datasetParam).bind Value.asStr?

/-- Binds the dataset of each node that is not bound yet. Providing a path may fail, and may change
what is provided later. -/
def bindDatasets [Monad m] (c : Context) (plan : Plan) (provide : String → m String) : m Context :=
  plan.nodes.foldlM (fun c n =>
    match datasetOf? n.params with
    | none => pure c
    | some name => if (c.dataset? name).isSome then pure c else c.bind name <$> provide name) c

end Context

/-- Cancellation marks in a forest: a mark on one also counts for all below it. Parents stand
before their children. -/
structure Cancellation where
  marks : List (Option Nat × Bool) := [(none, false)]
deriving DecidableEq, Inhabited

namespace Cancellation

def isCancelled (c : Cancellation) (i : Nat) : Bool := (c.marks[i]?.map (·.2)).getD false

/-- A new mark below another; it starts as its parent stands. -/
def child (c : Cancellation) (parent : Nat) : Cancellation × Nat :=
  (⟨c.marks ++ [(some parent, c.isCancelled parent)]⟩, c.marks.length)

/-- Cancels a mark and all below it. -/
def cancel (c : Cancellation) (i : Nat) : Cancellation :=
  ⟨c.marks.zipIdx.foldl (fun done ((parent, mark), j) =>
    done ++ [(parent, mark || j == i
      || (parent.bind fun p => done[p]?.map (·.2)).getD false)]) []⟩

def cancelAll (c : Cancellation) (is : List Nat) : Cancellation := is.foldl cancel c

end Cancellation
end Flowline
