import Flowline.Catalog.Contract
import Flowline.Decimal.Notation

/-! Rules on parameters. Each looks at one parameter and has nothing to say where it is absent or of
another kind. -/
namespace Flowline.Rule

def paramPlace (path : String) : String := s!"params.{path}"

/-- A broken rule on one parameter. -/
def bad (n : Declaration) (path message : String) : Diagnostic :=
  ((Finding.badParameter message).report.atNode n.id).atField (paramPlace path)

/-- A broken rule between parameters. -/
def conflict (n : Declaration) (path message : String) : Diagnostic :=
  ((Finding.conflict message).report.atNode n.id).atField (paramPlace path)

def number (x : Float) : String := Decimal.Notation.message.render x

/-- Something to say about the parameter, if it is present and fails the test. -/
def whenGiven (n : Declaration) (key : String) (value : Option α) (ok : α → Bool)
    (message : α → String) : List Diagnostic :=
  match value with
  | some a => if ok a then [] else [bad n key (message a)]
  | none => []

def oneOf (n : Declaration) (key : String) (allowed : List String) : List Diagnostic :=
  whenGiven n key (n.text? key) allowed.contains fun v =>
    s!"Invalid value '{v}' for '{key}', expected one of: {Finding.joined allowed}"

def intInRange (n : Declaration) (key : String) (lo hi : Int) : List Diagnostic :=
  whenGiven n key (n.int? key) (fun v => lo ≤ v && v ≤ hi) fun v =>
    s!"'{key}' must be between {lo} and {hi}, got {v}"

def intAtLeast (n : Declaration) (key : String) (lo : Int) : List Diagnostic :=
  whenGiven n key (n.int? key) (lo ≤ ·) fun v => s!"'{key}' must be at least {lo}, got {v}"

def positive (n : Declaration) (key : String) : List Diagnostic :=
  whenGiven n key (n.number? key) (fun v => v > 0) fun v => s!"'{key}' must be positive, got {number v}"

def nonNegative (n : Declaration) (key : String) : List Diagnostic :=
  whenGiven n key (n.number? key) (fun v => v ≥ 0) fun v =>
    s!"'{key}' must not be negative, got {number v}"

/-- Between zero and one; one itself only if `inclusive`. -/
def fraction (n : Declaration) (key : String) (inclusive : Bool) : List Diagnostic :=
  let bound := if inclusive then "(0, 1]" else "(0, 1)"
  whenGiven n key (n.number? key) (fun v => v > 0 && if inclusive then v ≤ 1 else v < 1) fun v =>
    s!"'{key}' must be in {bound}, got {number v}"

def nonEmptyList (n : Declaration) (key : String) : List Diagnostic :=
  match n.param? key with
  | some (.list []) => [bad n key s!"'{key}' must not be empty"]
  | _ => []

/-- One diagnostic per item that fails the test, at its index. -/
def eachItem (n : Declaration) (key : String) (items : List Value) (ok : Value → Bool)
    (place : Nat → String) (message : String) : List Diagnostic :=
  items.zipIdx.filterMap fun (v, i) =>
    if ok v then none else some (bad n (key ++ place i) message)

def index (i : Nat) : String := s!"[{i}]"

def textList (n : Declaration) (key : String) : List Diagnostic :=
  match n.param? key with
  | some (.list items) => eachItem n key items Value.isStr index s!"'{key}' entries must be strings"
  | _ => []

end Flowline.Rule
