import Flowline.Command.Perform
import Flowline.Sandbox.Guest
import Std.Time.DateTime.Timestamp

/-! The program: it reads the working folder, answers its arguments, and writes what has changed. -/
namespace Flowline.Main

/-- The files below a folder; what is no text is left out. -/
partial def load (names : List String) : IO Entry := do
  let here := names.foldl (· / ·) (← IO.currentDir)
  let mut entries := #[]
  for e in ← here.readDir do
    if ← e.path.isDir then
      entries := entries.push (e.fileName, ← load (names ++ [e.fileName]))
    else
      try entries := entries.push (e.fileName, .file (← IO.FS.readFile e.path))
      catch _ => pure ()
  return .folder entries.toList

/-- Writes the files of a tree that the old tree does not have in this form. -/
partial def save (old : Option Entry) (names : List String) : Entry → IO Unit
  | .folder entries => do
    if !(old.any Entry.isFolder) then IO.FS.createDirAll ("/".intercalate names)
    for (name, e) in entries do save (old.bind (·.child? name)) (names ++ [name]) e
  | .file content => do
    let isNew := match old with
      | some (.file before) => before != content
      | _ => true
    if isNew then IO.FS.writeFile ("/".intercalate names) content
  | .link _ => pure ()

/-- The present moment in universal time. -/
def now : IO Moment := do
  let seconds := (← Std.Time.Timestamp.now).toSecondsSinceUnixEpoch.val
  let rest := (seconds % 86400).toNat
  return ⟨.ofDayNumber (seconds / 86400), rest / 3600, rest / 60 % 60, rest % 60, 0⟩

/-- A random id of five groups of hexadecimal digits. -/
def freshId : IO String := do
  let group (width : Nat) : IO String := do
    return String.ofList (Text.hexDigits width (← IO.rand 0 (Nat.pow 16 width - 1)))
  return "-".intercalate [← group 8, ← group 4, "4" ++ (← group 3), "8" ++ (← group 3),
    ← group 12]

end Flowline.Main

open Flowline in
def main (args : List String) : IO UInt32 := do
  let files ← Main.load []
  let r := respond args {
    now := ← Main.now
    freshId := ← Main.freshId
    units := Guest.units files
  } files
  Main.save (some files) [] r.files
  IO.print r.stdout
  for line in r.stderr do IO.eprintln line
  return r.exit.toUInt32
