import Flowline.Error
import Flowline.Files.Tree

/-! Datasets are files below one folder. -/
namespace Flowline.Dataset

/-- A name that would lead out of the folder as it is written. -/
def escapes (name : String) : Bool :=
  name.isEmpty || Path.isAbsolute name || (Path.segments name).contains ".."

/-- The file that a name stands for: links are followed, but not out of the folder. -/
def file? (root : Entry) (folder name : String) : Option (List String) := do
  let base ← (root.canonical folder).toOption
  let names ← (root.canonical (Path.join (Path.ofNames base) name)).toOption
  if base.isPrefixOf names && (root.at? names).any Entry.isFile then return names else none

/-- The path of a dataset. -/
def resolve (root : Entry) (folder name : String) : Except PipelineError String :=
  if escapes name then
    .error (.datasetNotFound s!"{name} (must be a relative path inside the dataset root)")
  else match file? root folder name with
    | some names => .ok (Path.ofNames names)
    | none => .error (.datasetNotFound name)

end Flowline.Dataset
