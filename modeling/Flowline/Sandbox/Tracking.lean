import Flowline.Run.Context

/-! The live units of each run, so that a run can be stopped from outside. -/
namespace Flowline

structure Tracking where
  /-- The units of each run that has any, each with the mark that tells it to stop. -/
  runs : List (String × List (String × Nat)) := []
  marks : Cancellation := {}
deriving DecidableEq, Inhabited

namespace Tracking

def units (t : Tracking) (run : String) : List (String × Nat) := (t.runs.lookup run).getD []

/-- Changes the units of a run that is listed. -/
def update (t : Tracking) (run : String) (f : List (String × Nat) → List (String × Nat)) :
    Tracking :=
  { t with runs := t.runs.map fun (r, us) => if r == run then (r, f us) else (r, us) }

/-- The mark that the next unit gets. -/
def nextMark (t : Tracking) : Nat := t.marks.marks.length

/-- Lists a unit with its mark under its run, and the run if it was not listed. -/
def insert (t : Tracking) (run : String) (entry : String × Nat) : Tracking :=
  if (t.runs.lookup run).isSome then
    t.update run fun us => us.filter (·.1 != entry.1) ++ [entry]
  else { t with runs := t.runs ++ [(run, [entry])] }

/-- Lists a unit under its run, with a mark of its own below that of the context in which it runs. -/
def register (t : Tracking) (run unit : String) (context : Nat := 0) : Tracking :=
  { t.insert run (unit, t.nextMark) with marks := (t.marks.child context).1 }

/-- The first step of taking a unit off. -/
def removeUnit (t : Tracking) (run unit : String) : Tracking :=
  t.update run fun us => us.filter (·.1 != unit)

/-- The second step: a run without units is taken off. -/
def removeRun (t : Tracking) (run : String) : Tracking :=
  { t with runs := t.runs.filter fun (r, us) => r != run || !us.isEmpty }

def unregister (t : Tracking) (run unit : String) : Tracking :=
  (t.removeUnit run unit).removeRun run

/-- Tells all units of a run to stop; counts them. -/
def cancelRun (t : Tracking) (run : String) : Tracking × Nat :=
  ({ t with marks := t.marks.cancelAll ((t.units run).map (·.2)) }, (t.units run).length)

def live (t : Tracking) (run : String) : Nat := (t.units run).length

def total (t : Tracking) : Nat := (t.runs.flatMap (·.2)).length

end Tracking
end Flowline
