import EditorHost.Disk

/-!
# Changing a disk

An action on a disk gives a value or fails, and in both cases the disk stays as it has become: what
was made or removed before a failure is not taken back.

## Contents

* `Disk.Action` and `Disk.perform`.
* `createFolder` and `createFolders`, `writeFile`, `removeTree` and `copyTree`.
-/

namespace EditorHost.Disk

/-- Something to do to a disk. -/
abbrev Action (α : Type) := ExceptT DiskError (StateM Disk) α

/-- Does something to a disk: what came of it, and the disk behind it. -/
def perform (d : Disk) (action : Action α) : Except DiskError α × Disk := action.run.run d

/-- Looks at a disk, and fails where that fails. -/
def look (view : Disk → Except DiskError α) : Action α := do
  match view (← get) with
  | .ok value => return value
  | .error e => throw e

/-- Puts a node into a place. -/
def putAt (node : Node) (place : List String) : Action Unit :=
  modify fun d => { d with root := d.root.put node place }

/-! ## Folders -/

/-- Makes a folder in one that exists. -/
def createFolder (p : Path) : Action Unit := do
  match ← look fun d => d.spot? p with
  | none => throw .alreadyThere
  | some s =>
    if ¬s.isName then throw .alreadyThere
    look fun _ => checkName s.last
    if s.entries.has s.last then throw .alreadyThere
    putAt (.folder []) s.place

/-- Makes a folder that may be there already. -/
def ensureFolder (p : Path) : Action Unit :=
  tryCatch (createFolder p) fun e => do
    if e = .alreadyThere ∧ (← get).isFolder p then return () else throw e

/-- Makes the first folder of a list, from the inmost outwards, that stands in an existing one;
gives those that are still to be made. -/
def climb : List Path → List Path → Action (List Path)
  | [], inner => return inner
  | p :: outer, inner =>
    tryCatch (do ensureFolder p; return inner) fun
      | .notFound => climb outer (p :: inner)
      | e => throw e

/-- Makes a folder and the ones above it that are missing. -/
def createFolders (p : Path) : Action Unit := do
  (← climb p.ancestors []).forM ensureFolder

/-! ## Files -/

/-- Writes a file, in place of any that is there. -/
def writeFile (p : Path) (content : Content) : Action Unit := do
  match ← look fun d => d.spot? p with
  | none => throw .isFolder
  | some s =>
    if ¬s.isName ∨ p.endsInSlash then throw .isFolder
    look fun _ => checkName s.last
    match s.entries.find? s.last with
    | some (.folder _) => throw .isFolder
    | some (.link _) =>
      match ← look fun d => d.nodeAt p with
      | .file _ => putAt (.file content) (← look fun d => d.locate p)
      | _ => throw .isFolder
    | _ => putAt (.file content) s.place

def writeText (p : Path) (text : String) : Action Unit := writeFile p (.text text)

/-- Writes what a path leads to, which has to be a file, to another path. -/
def copyFile (source target : Path) : Action Unit := do
  match ← look fun d => d.nodeAt source with
  | .file content => writeFile target content
  | _ => throw .notFile

/-! ## Removing -/

/-- Removes an entry, which is not followed if it is a link. -/
def removeEntry (s : Spot) : Action Unit :=
  modify fun d => { d with root := d.root.remove s.place }

/-- Removes an empty folder.  Dots at the end of a path name no entry that could be removed. -/
def removeFolder (p : Path) : Action Unit := do
  match ← look fun d => d.spot? p with
  | none => throw .inUse
  | some s =>
    if s.last = "." then throw .invalidPath
    if s.last = ".." then throw .notEmpty
    match s.entries.find? s.last with
    | some (.folder []) => removeEntry s
    | some (.folder _) => throw .notEmpty
    | some _ => throw .notFolder
    | none => throw .notFound

/-- Removes a folder with all that is in it, or a link.  The folder is emptied first; when its path
leads through what was in it, it is not found afterwards and stays, empty. -/
def removeTree (p : Path) : Action Unit := do
  match ← look fun d => d.entryAt p with
  | .file _ => throw .notFolder
  | .link _ =>
    match ← look fun d => d.spot? p with
    | some s => removeEntry s
    | none => throw .notFound
  | .folder _ =>
    putAt (.folder []) (← look fun d => d.locate p)
    tryCatch (removeFolder p) fun
      | .notFound => return ()
      | e => throw e

/-! ## Copying -/

/-- Copies an entry found below a folder to its place below another: links are replaced by the files
that they lead to. -/
def copyEntry (source target : Path) (entry : Entry) : Action Unit :=
  match entry.node with
  | .folder _ => createFolders (target.join entry.path.text)
  | .file content => writeFile (target.join entry.path.text) content
  | .link _ => copyFile (source.join entry.path.text) (target.join entry.path.text)

/-- Whether a path leads to another one or into it. -/
def leadsInto (d : Disk) (p base : Path) : Except DiskError Bool := do
  return (← d.locate base).isPrefixOf (← d.locate p)

/-- Copies a folder to a place, entry by entry.  A copy inside of what is copied would have to hold
itself, so that it fails in the end: the names in it become too long. -/
def copyTree (source target : Path) : Action Unit := do
  match ← look fun d => d.entryAt source with
  | .folder entries =>
    createFolders (target.join "")
    if ← look fun d => d.leadsInto target source then throw .nameTooLong
    (entriesOf ⟨""⟩ (.folder entries)).forM (copyEntry source target)
  | _ => copyFile source (target.join "")

end EditorHost.Disk
