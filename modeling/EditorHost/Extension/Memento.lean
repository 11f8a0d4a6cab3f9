import EditorHost.Disk.Action
import EditorHost.Fault
import EditorHost.Json.Printer
import EditorHost.Json.Tree

/-!
# State that extensions keep

A memento is a table of values that is written to a file as one JSON object whenever it changes.
-/

namespace EditorHost

/-- What the library says of a disk operation that failed. -/
def DiskError.fault (e : DiskError) : Fault := .io e.message

structure Memento where
  file : Path
  values : Table Json := []
  deriving Inhabited

namespace Memento

/-- The name of the file that holds a memento. -/
def fileName : String := "state.json"

/-- Reads a memento; a file that is missing or holds something else counts as empty. -/
def load (disk : Disk) (file : Path) : Memento :=
  let values := match disk.readText file with
    | .ok text => ((Json.parse? text).bind Json.asObject?).getD []
    | .error _ => []
  ⟨file, values⟩

/-- Changes a key; null removes it. -/
def put (m : Memento) (key : String) (value : Json) : Memento :=
  { m with values := if value.isNull then m.values.erase key else m.values.insert key value }

/-- What the file is to hold. -/
def content (m : Memento) : String := (Json.object m.values).indented

end Memento

end EditorHost
