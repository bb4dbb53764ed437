/-! What a program leaves behind when it has run. -/
namespace Flowline

inductive Exit where
  | code (n : Nat)
  | signal (n : Nat)
deriving DecidableEq, Inhabited

namespace Exit

def code? : Exit → Option Nat
  | code n => some n
  | signal _ => none

def signal? : Exit → Option Nat
  | code _ => none
  | signal n => some n

end Exit

structure ProgramRun where
  stdout : String := ""
  stderr : String := ""
  /-- The content of the output file, if it was written. -/
  output : Option String := none
  exit : Exit := .code 0
  /-- Milliseconds. -/
  duration : Nat := 0
deriving Inhabited

end Flowline
