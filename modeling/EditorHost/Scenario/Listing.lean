import EditorHost.Disk
import EditorHost.Json.Value
import EditorHost.Text.Utf8

/-!
# Trees of files

What lies below a folder, written as one object: the text of each file under its path, and null
under the path of each folder.
-/

namespace EditorHost.Disk

/-- The text of what a file holds. -/
def Content.shown : Content → String
  | .text s => s
  | .binary octets => Utf8.decodeLossy octets

/-- An entry as it is listed. -/
def Entry.listed (e : Entry) : List (String × Json) :=
  match e.node with
  | .folder _ => [(e.path.text ++ "/", .null)]
  | .file content => [(e.path.text, .text (Content.shown content))]
  | .link _ => []

/-- What lies below a folder. -/
def listing (d : Disk) (p : Path) : Json :=
  match d.find? p with
  | some (.folder entries) =>
    .ofFields ((entriesOf ⟨""⟩ (.folder entries)).flatMap Entry.listed)
  | _ => .empty

end EditorHost.Disk
