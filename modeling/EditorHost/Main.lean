import EditorHost.CommandLine.Run
import EditorHost.Disk.Changes

/-!
# The program

Reads the folders that the arguments are about into a disk, runs the command line on it, and makes
the changes that came of it.
-/

namespace EditorHost

/-- The names in an absolute path, two dots taking back the one before. -/
def Path.plainNames (p : Path) : List String :=
  p.components.foldl (fun names component =>
    match component with
    | .name name => names ++ [name]
    | .up => names.dropLast
    | .root | .here => names) []

namespace Program

/-- The absolute text of a list of names. -/
def absolute (place : List String) : String := "/" ++ "/".intercalate place

/-- What a file holds, as text where it is one. -/
def contentOf (octets : ByteArray) : Content :=
  match String.fromUTF8? octets with
  | some text => .text text
  | none => .binary octets.toList

/-! ## Reading -/

/-- Reads what is at an absolute path; nothing if there is nothing that can be read. -/
partial def readNode (text : String) : IO (Option Node) := do
  let path := System.mkFilePath [text]
  try
    match (← path.symlinkMetadata).type with
    | .dir =>
      let mut entries : Table Node := []
      for entry in ← path.readDir do
        if let some node ← readNode (text ++ "/" ++ entry.fileName) then
          entries := entries.insert entry.fileName node
      return some (.folder entries)
    | .file => return some (.file (contentOf (← IO.FS.readBinFile path)))
    | .symlink => return some (.link ⟨(← IO.FS.realPath path).toString⟩)
    | .other => return none
  catch _ => return none

/-- Puts what is at an absolute path on a disk, with the folders above it. -/
def addTo (disk : Disk) (path : Path) : IO Disk := do
  let place := path.plainNames
  match ← readNode (absolute place) with
  | some node => return (disk.perform do
      Disk.createFolders ⟨absolute place.dropLast⟩
      Disk.putAt node place).2
  | none => return disk

/-- The files and folders that the links of a disk lead to and that are not on it. -/
partial def linkedFrom (disk : Disk) : Node → List Path
  | .folder entries => entries.flatMap fun entry => linkedFrom disk entry.2
  | .link target => if disk.exists? target then [] else [target]
  | .file _ => []

/-- The disk with the current folder and what is at some paths. -/
def diskWith (here : Path) (paths : List Path) : IO Disk := do
  let start := { Disk.empty with here := here.plainNames }
  let disk ← (paths.map fun p => here.join p.text).foldlM addTo
    (start.perform (Disk.createFolders here)).2
  (linkedFrom disk disk.root).foldlM addTo disk

/-! ## Writing -/

/-- Makes a change. -/
def apply : Disk.Change → IO Unit
  | .remove place => do
    let path := System.mkFilePath [absolute place]
    if (← path.symlinkMetadata).type matches .dir then IO.FS.removeDirAll path
    else IO.FS.removeFile path
  | .makeFolder place => IO.FS.createDirAll (absolute place)
  | .write place (.text text) => IO.FS.writeFile (absolute place) text
  | .write place (.binary octets) => IO.FS.writeBinFile (absolute place) ⟨octets.toArray⟩

/-- The folders of the user, as the environment names them. -/
def surroundings : IO CommandLine.Surroundings := do
  let home := (← IO.getEnv "HOME").map Path.mk
  match (← IO.getEnv "XDG_DATA_HOME").map Path.mk with
  | some dataHome => if dataHome.isAbsolute then return { home, dataHome } else return { home }
  | none => return { home }

end Program

end EditorHost

open EditorHost Program in
/-- Runs the program with the arguments of the command line; the result is the exit code. -/
def main (arguments : List String) : IO UInt32 := do
  let s ← surroundings
  let paths := match CommandLine.Invocation.read arguments with
    | .ok invocation => invocation.folders s
    | .error _ => []
  let before ← diskWith ⟨(← IO.currentDir).toString⟩ paths
  let (report, after) := CommandLine.run s before arguments
  try
    (before.changesTo after).forM apply
    IO.print report.output
    IO.eprint report.errors
    return report.ending.code.toUInt32
  catch e =>
    IO.eprintln s!"error: {e}"
    return 1
