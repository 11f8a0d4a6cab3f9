import EditorHost.Extension.Discovery
import EditorHost.Extension.Lifecycle
import EditorHost.Text.Quoted

/-!
# Loading, installing and removing extensions

Extensions are found below two roots, and what the user installed goes before what came with the
application.  An installed extension is a copy of its folder below the user's root, under its
identifier, in place of an earlier copy.
-/

namespace EditorHost.World

variable {χ : Type} (code : Code χ)

/-! ## Loading -/

/-- Loads the extension of a folder, inactive.  One that is loaded already stays as it is. -/
def load (path : Path) : Flow (World χ) (Except Fault Descriptor) := do
  match ← Flow.read fun w => Manifest.ofFolder w.disk path with
  | .error fault => return .error fault
  | .ok manifest =>
    let id := manifest.id
    Flow.pause
    match ← Flow.read fun w => w.host.descriptor? id with
    | some descriptor => return .ok descriptor
    | none =>
      Flow.sync (apiPart.zoom fun api => ((), api.seed manifest.defaults))
      Flow.pause
      let isDisabled ← Flow.read fun w => w.host.isDisabled id
      Flow.pause
      let isBuiltin ← Flow.sync fun w =>
        let host := w.host.add id path manifest
        ((host.find? id).any Extension.isBuiltin, { w with host })
      Flow.sync (emit [.extensionsChanged])
      return .ok {
        id, path, manifest, isBuiltin, isDisabled, isActive := false, exports := .null }

/-- Loads the extensions of some folders, and gives the identifiers of those that could be
loaded. -/
def loadAll (paths : List Path) : Flow (World χ) (List String) := do
  return (← Flow.mapEach paths load).filterMap fun result =>
    result.toOption.map Descriptor.id

/-- Loads all extensions below the two roots. -/
def discover : Flow (World χ) (List String) := do
  let ofUser ← loadAll (← Flow.read fun w =>
    Discovery.packages w.disk w.host.layout.userExtensions)
  let bundled ← loadAll (← Flow.read fun w =>
    Discovery.packages w.disk w.host.layout.bundledExtensions)
  return ofUser ++ bundled

/-! ## Installing -/

/-- Removes what is at a path, if there is something. -/
def clear (path : Path) : Flow (World χ) (Except Fault Unit) := do
  Flow.pause
  match ← Flow.read fun w => w.disk.checkExists path with
  | .error e => return .error e.fault
  | .ok false => return .ok ()
  | .ok true => onDisk (Disk.removeTree path)

/-- The fault of a folder to copy that is not there. -/
def sourceFault (source : Path) (e : DiskError) : Fault :=
  .general (s!"Cannot read {Text.quotePath source.text.toList}: IO error for operation on " ++
    s!"{source.text}: {e.message}")

/-- Copies a folder into a place, in which nothing may be left of what was there. -/
def replaceTree (source target : Path) : Flow (World χ) (Except Fault Unit) := do
  match ← clear target with
  | .error fault => return .error fault
  | .ok () =>
    Flow.pause
    match ← Flow.read fun w => w.disk.entryAt source with
    | .error e => return .error (sourceFault source e)
    | .ok _ => onDisk (Disk.copyTree source target)

/-- Takes a loaded extension out of the host, so that it can be replaced. -/
def unload (id : String) : Flow (World χ) (Except Fault Unit) := do
  Flow.pause
  if (← Flow.read fun w => w.host.find? id).isNone then return .ok ()
  match ← deactivate code id with
  | .error fault => return .error fault
  | .ok () =>
    Flow.pause
    Flow.sync (hostPart.zoom fun h => ((), h.forget id))
    return .ok ()

/-- Installs the extension of a folder, in place of any with the same identifier. -/
def install (source : Path) : Flow (World χ) (Except Fault Descriptor) := do
  match ← Flow.read fun w => Manifest.ofFolder w.disk source with
  | .error fault => return .error fault
  | .ok manifest =>
    let id := manifest.id
    let target ← Flow.read fun w => w.host.layout.userExtensions.join id
    match ← unload code id with
    | .error fault => return .error fault
    | .ok () =>
      Flow.pause
      if ← Flow.read fun w => w.disk.samePlace source target then load target
      else
        match ← replaceTree source target with
        | .error fault => return .error fault
        | .ok () => load target

/-! ## Removing -/

/-- Deletes the folder of an extension, if it lies below the user's root. -/
def deletePackage (path : Path) : Flow (World χ) (Except Fault Unit) := do
  Flow.pause
  if ← Flow.read fun w => path.startsWith w.host.layout.userExtensions then
    onDisk (Disk.removeTree path)
  else return .ok ()

/-- Removes an extension that did not come with the application. -/
def uninstall (id : String) : Flow (World χ) (Except Fault Unit) := do
  Flow.pause
  match ← Flow.read fun w => w.host.find? id with
  | none => return .error (.unknownExtension id)
  | some e =>
    if e.isBuiltin then
      return .error (.general s!"Extension {id} is bundled and cannot be uninstalled")
    match ← deactivate code id with
    | .error fault => return .error fault
    | .ok () =>
      Flow.pause
      Flow.sync (hostPart.zoom fun h => ((), h.forget id))
      match ← setDisabled id false with
      | .error fault => return .error fault
      | .ok () =>
        match ← deletePackage e.path with
        | .error fault => return .error fault
        | .ok () =>
          Flow.sync (emit [.extensionsChanged])
          return .ok ()

end EditorHost.World
