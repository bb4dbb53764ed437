import Flowline.Sandbox.Tracking
import Flowline.Sandbox.Unit

/-! Units that run side by side. Each is run by a call of its own, which goes through its phases in
turn; the moves of all calls interleave, with one another and with what stops runs. -/
namespace Flowline

/-- How far the call that runs a unit has come. An ending is missing where the call was given up. -/
inductive UnitPhase where
  /-- The folder and the input of the unit are being made. -/
  | preparing
  /-- The unit is listed under its run; it is started and waited for. -/
  | live (mark : Nat)
  /-- The wait is over, the unit is still listed. -/
  | leaving (mark : Nat) (ending : Option UnitEnding)
  /-- The unit has been taken off, its run not yet. -/
  | removed (ending : Option UnitEnding)
  /-- What the unit has left is being looked at. -/
  | closing (ending : Option UnitEnding)
  | ended (outcome : Option (Except SandboxError Output))

structure UnitCall where
  run : String
  unit : String
  /-- The mark of the context in which the unit runs. -/
  context : Nat
  phase : UnitPhase := .preparing

/-- What a call can do next. -/
inductive UnitMove where
  | register
  /-- The folder or the input could not be made. -/
  | fail (e : SandboxError)
  | leave (ending : UnitEnding)
  | giveUp
  | removeUnit
  | removeRun
  | close

namespace UnitCall

/-- A unit is cancelled only if it has been told to stop. -/
def mayLeave (t : Tracking) (mark : Nat) : UnitEnding → Bool
  | .cancelled => t.marks.isCancelled mark
  | _ => true

/-- The phase and the live units after a move, if the call can make it. -/
def act (c : UnitCall) (t : Tracking) : UnitMove → Option (UnitPhase × Tracking)
  | .register => match c.phase with
    | .preparing => some (.live t.nextMark, t.register c.run c.unit c.context)
    | _ => none
  | .fail e => match c.phase with
    | .preparing => some (.ended (some (.error e)), t)
    | _ => none
  | .leave ending => match c.phase with
    | .live mark => if mayLeave t mark ending then some (.leaving mark (some ending), t) else none
    | _ => none
  | .giveUp => match c.phase with
    | .preparing | .closing _ => some (.ended none, t)
    | .live mark => some (.leaving mark none, t)
    | _ => none
  | .removeUnit => match c.phase with
    | .leaving _ ending => some (.removed ending, t.removeUnit c.run c.unit)
    | _ => none
  | .removeRun => match c.phase with
    | .removed ending => some (.closing ending, t.removeRun c.run)
    | _ => none
  | .close => match c.phase with
    | .closing ending => some (.ended (ending.map UnitEnding.outcome), t)
    | _ => none

/-- The unit and its mark, from its registration until it is taken off. -/
def slot? (c : UnitCall) : Option (String × Nat) :=
  match c.phase with
  | .live mark | .leaving mark _ => some (c.unit, mark)
  | _ => none

/-- The call stands between the two steps of taking its unit off. -/
def isBetween (c : UnitCall) : Bool :=
  match c.phase with
  | .removed _ => true
  | _ => false

def hasEnded (c : UnitCall) : Bool :=
  match c.phase with
  | .ended _ => true
  | _ => false

end UnitCall

/-- The calls that were ever made, and the contexts in which units run. -/
structure UnitCalls where
  tracking : Tracking := {}
  /-- The marks of the contexts. -/
  contexts : List Nat := [0]
  calls : List UnitCall := []

namespace UnitCalls

inductive Action where
  /-- Makes a context below another one. -/
  | nest (context : Nat)
  | cancelContext (context : Nat)
  | call (run unit : String) (context : Nat)
  /-- A move of the call at a place. -/
  | move (place : Nat) (m : UnitMove)
  | cancelRun (run : String)

/-- Each unit gets a name that no other has. -/
def act (s : UnitCalls) : Action → Option UnitCalls
  | .nest context =>
    if context ∈ s.contexts then
      let (marks, mark) := s.tracking.marks.child context
      some { s with tracking := { s.tracking with marks }, contexts := s.contexts ++ [mark] }
    else none
  | .cancelContext context =>
    if context ∈ s.contexts then
      some { s with tracking := { s.tracking with marks := s.tracking.marks.cancel context } }
    else none
  | .call run unit context =>
    if context ∈ s.contexts ∧ unit ∉ s.calls.map (·.unit) then
      some { s with calls := s.calls ++ [{ run, unit, context }] }
    else none
  | .move place m =>
    s.calls[place]?.bind fun c => (c.act s.tracking m).map fun (phase, tracking) =>
      { s with tracking, calls := s.calls.set place { c with phase } }
  | .cancelRun run => some { s with tracking := (s.tracking.cancelRun run).1 }

/-- The state after a sequence of actions, from before the first call. -/
def after (actions : List Action) : Option UnitCalls := actions.foldlM act {}

end UnitCalls
end Flowline
