import EditorHost.Disk.Tour
import EditorHost.Extension.Manifest

/-!
# Finding installed extensions

Extensions lie in folders below an install root, at most three levels deep.  A folder with a
readable manifest is a package, and nothing inside it is looked at; folders named `node_modules` and
everything behind links are left out.  Packages come in the order of the names of the folders.
-/

namespace EditorHost.Discovery

open Disk (Tour)

/-- How many levels below an install root are looked at. -/
def maxDepth : Nat := 3

/-- Folders of this name hold what extensions depend on. -/
def skippedName : String := "node_modules"

/-- Whether a folder has a readable manifest. -/
def isPackage (disk : Disk) (path : Path) : Bool :=
  disk.isFile (path.join Manifest.fileName) && (Manifest.ofFolder disk path).toOption.isSome

/-- Whether an entry is a folder that is looked into. -/
def isKept (stop : Tour.Stop) : Bool := stop.name ≠ skippedName && stop.isFolder

/-- The packages that the rest of a tour comes past, which is steered around what is in them. -/
def collect (disk : Disk) (tour : Tour) : List Path :=
  match _h : tour.nextKept? maxDepth isKept with
  | none => []
  | some (stop, behind) =>
    if isPackage disk stop.path then stop.path :: collect disk behind.skip
    else collect disk behind
termination_by tour.left
decreasing_by
  · exact Nat.lt_of_le_of_lt (Tour.left_skip_le _) (Tour.left_nextKept _h)
  · exact Tour.left_nextKept _h

/-- The packages below an install root. -/
def packages (disk : Disk) (root : Path) : List Path :=
  match disk.find? root with
  | some (.folder entries) => collect disk [⟨root, entries⟩]
  | _ => []

end EditorHost.Discovery
