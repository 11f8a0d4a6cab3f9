import EditorHost.Path

/-!
# The data directory

Where the host keeps its files: installed extensions, what extensions store, logs, the list of
disabled extensions and the settings.
-/

namespace EditorHost

/-- The places in and beside a data directory. -/
structure Layout where
  dataDir : Path
  /-- Extensions that the user installed, one directory each. -/
  userExtensions : Path
  /-- Extensions that came with the application. -/
  bundledExtensions : Path
  storage : Path
  logs : Path
  disabledFile : Path
  deriving DecidableEq, Repr, Inhabited

namespace Layout

/-- The layout below a data directory. -/
def ofDataDir (dataDir : Path) : Layout where
  dataDir
  userExtensions := dataDir.join "extensions"
  bundledExtensions := dataDir.join "bundled-extensions"
  storage := dataDir.join "extension-storage"
  logs := dataDir.join "logs"
  disabledFile := dataDir.join "disabled-extensions.json"

/-- The layout with another directory of bundled extensions. -/
def withBundled (l : Layout) (dir : Path) : Layout := { l with bundledExtensions := dir }

def settingsFile (l : Layout) : Path := l.dataDir.join "settings.jsonc"

/-- Where an extension stores its state. -/
def storageOf (l : Layout) (extension : String) : Path := l.storage.join extension

def logsOf (l : Layout) (extension : String) : Path := l.logs.join extension

end Layout

/-- A path in which a tilde at the start stands for the home directory. -/
def Path.expandTilde (home : Path) (text : String) : Path :=
  if text = "~" then home
  else
    match Text.dropPrefix? ['~', '/'] text.toList with
    | some rest => home.join (String.ofList rest)
    | none => ⟨text⟩

end EditorHost
