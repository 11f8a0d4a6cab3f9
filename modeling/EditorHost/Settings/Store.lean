import EditorHost.Disk
import EditorHost.Fault
import EditorHost.Json.Commented
import EditorHost.Settings.Layout
import EditorHost.Settings.Servers
import EditorHost.Text.Blank

/-!
# Settings

The settings file holds one tree of settings for the host and all extensions.  Keys with dots are
expanded when it is read, so that the tree is the same whether a setting was written nested or not.
The section `lsp` has to have the form of `ServerSettings`.
-/

namespace EditorHost

/-- Settings as they were loaded. -/
structure Settings where
  layout : Layout
  servers : ServerSettings
  tree : Json
  deriving Inhabited

namespace Settings

/-- Reads JSON with comments. -/
def parse (text : String) : Except Fault Json :=
  match Json.parseCommented? text with
  | some v => .ok v
  | none => .error (.configuration "Failed to parse JSONC: malformed text")

/-- The tree with a value at a key.  The key has no empty parts, and what it leads through are
objects; otherwise the tree stays as it is. -/
def put (tree : Json) (key : String) (value : Json) : Except Fault Json :=
  if key = "" ∨ (Json.route key).contains "" then
    .error (.configuration s!"Invalid key format: {key}")
  else
    match tree.put? value (Json.route key) with
    | some tree => .ok tree
    | none => .error (.configuration s!"Cannot set {key}: intermediate value is not an object")

/-- The tree of a settings file; a file that is missing or blank has no settings. -/
def readTree (disk : Disk) (file : Path) : Except Fault Json :=
  if ¬disk.exists? file then .ok .empty
  else
    match disk.readText file with
    | .error e => .error (.io e.message)
    | .ok text => if Text.isBlankText text then .ok .empty else (parse text).map Json.expandDots

/-- Loads the settings of a data directory. -/
def load (disk : Disk) (layout : Layout) : Except Fault Settings := do
  let tree ← readTree disk layout.settingsFile
  match tree.get? "lsp" with
  | none => return ⟨layout, .default, tree⟩
  | some sectionTree =>
    match ServerSettings.read sectionTree with
    | some servers => return ⟨layout, servers, tree⟩
    | none => .error (.configuration "Invalid lsp settings: malformed section")

end Settings

end EditorHost
