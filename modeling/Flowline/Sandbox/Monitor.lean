import Flowline.Decimal.Reader
import Flowline.Sandbox.Output
import Flowline.Sandbox.Policy
import Flowline.Text.Blank

/-! The limits on memory and time, checked at regular moments while the code runs. -/
namespace Flowline

/-- The resident memory in the status text of a process. -/
def Usage.residentBytes? (status : String) : Option Nat := do
  let line ← (Text.lines status).find? (·.startsWith "VmRSS:")
  let digits ← (Text.words line)[1]?
  let digits := match digits.toList with
    | '+' :: ds => ds
    | ds => ds
  if digits.isEmpty || !digits.all Char.isDigit then none
  let n := Decimal.natOfDigits digits
  if n ≤ 0xFFFFFFFFFFFFFFFF then return n * 1024 else none

namespace Monitor

def bytesPerMegabyte : Nat := 1024 * 1024

/-- A limit crossed at the last sample. Memory comes before time; zero is no limit. -/
def breach? (policy : Policy) (usage : Usage) : Option Violation :=
  let memory := policy.maxMemoryBytes
  if 0 < memory ∧ memory < usage.peakMemory then
    some {
      kind := .memoryLimit
      message := s!"memory limit exceeded: peak {usage.peakMemory / bytesPerMegabyte} MB over a "
        ++ s!"{memory / bytesPerMegabyte} MB ceiling"
      details := .map [("peakMemoryBytes", .ofNat usage.peakMemory),
        ("limitBytes", .ofNat memory), ("elapsedMs", .ofNat usage.elapsed)] }
  else if 0 < policy.maxTime ∧ policy.maxTime < usage.elapsed then
    some {
      kind := .timeout
      message := s!"execution time limit exceeded: {usage.elapsed}ms over a {policy.maxTime}ms ceiling"
      details := .map [("elapsedMs", .ofNat usage.elapsed), ("limitMs", .ofNat policy.maxTime),
        ("peakMemoryBytes", .ofNat usage.peakMemory)] }
  else none

/-- Milliseconds between two samples. -/
def interval (policy : Policy) : Nat := max 1 policy.sampleInterval

/-- Adds a sample; without a reading the peak stays. -/
def sample (usage : Usage) (elapsed : Nat) (reading : Option Nat) : Usage :=
  ⟨max usage.peakMemory (reading.getD 0), elapsed, usage.samples + 1⟩

/-- Takes up to `ticks` samples, the last reading over and over, until a limit is crossed. -/
def watch (policy : Policy) (usage : Usage) (elapsed : Nat) (last : Option Nat) :
    Nat → List Nat → Option Violation × Usage
  | 0, _ => (none, usage)
  | ticks + 1, readings =>
    let reading := readings.head?.or last
    let usage := sample usage elapsed reading
    match breach? policy usage with
    | some violation => (some violation, usage)
    | none => watch policy usage (elapsed + interval policy) reading ticks readings.tail

/-- Watches code that runs for the given time: the first sample is taken at once. -/
def supervise (policy : Policy) (readings : List Nat) (duration : Nat) :
    Option Violation × Usage :=
  watch policy {} 0 none (duration / interval policy + 1) readings

end Monitor
end Flowline
