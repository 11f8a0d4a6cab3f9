import EditorHost.World

/-!
# Activating and deactivating extensions

An extension is activated by running its entry module, at most once at a time.  What goes wrong in
the module does not stop the activation: the extension is then active without exports.  On
deactivation the module is told first; then the handles that it gave to its context are undone, its
processes are killed, and whatever else it registered is dropped.
-/

namespace EditorHost

variable {χ : Type} (code : Code χ)

namespace World

/-! ## Taking turns -/

/-- Does something when it is the turn of a new ticket of a queue, and gives the ticket back. -/
def inTurn (queue : QueueId) (body : Flow (World χ) α) : Flow (World χ) α := do
  let ticket ← Flow.sync (hostPart.zoom fun h => h.takeTicket queue)
  Flow.untilReady fun w => w.host.isTurnOf queue ticket
  let value ← body
  Flow.sync (hostPart.zoom fun h => ((), h.giveBack queue ticket))
  return value

/-! ## Activation -/

/-- Makes a context for an extension; `none` when its folders cannot be made. -/
def makeContext (id : String) (path : Path) : StateM (World χ) (Option ContextId) := fun w =>
  match w.disk.perform (Context.prepare w.host.layout id path) with
  | (.error _, disk) => (none, { w with disk })
  | (.ok context, disk) =>
    let (number, host) := w.host.addContext context
    (some number, { w with disk, host })

/-- Undoes what was given to a context, the last handle first, and gives up its background work. -/
def disposeContext (context : ContextId) : StateM (World χ) Unit := do
  let part : Focus (World χ) Context := hostPart.comp (Host.context context)
  disposeAll code (← part.zoom Context.drain)
  part.zoom fun c => ((), c.giveUp)

/-- Builds the entry module that an extension declares. -/
def build (id main : String) : Except Fault (Module χ) :=
  match code.entry id with
  | none => .error (.activation id s!"no entry module registered for main '{main}'")
  | some entry =>
    if entry.builds then .ok entry
    else .error (.activation id "entry module constructor panicked")

/-- Runs the entry module of an extension, if it has one: the exports, and whether the module was
built. -/
def enter (id : String) (manifest : Manifest) (context : ContextId) :
    Flow (World χ) (Json × Bool) := do
  match manifest.main.map (build code id) with
  | some (.ok entry) => return ((← entry.activate context).value?.getD .null, true)
  | _ => return (.null, false)

/-- Marks an extension as active; tells whether it is still loaded. -/
def becomeActive (id : String) (exports : Json) (hasModule : Bool) (context : ContextId)
    (h : Host) : Bool × Host :=
  match h.find? id with
  | none => (false, h)
  | some _ =>
    (true, h.modify id fun e =>
      { e with isActive := true, exports, hasModule, context := some context })

/-- Activates an extension whose turn it is. -/
def activateInTurn (id : String) (path : Path) (manifest : Manifest) : Flow (World χ) Bool := do
  Flow.pause
  match ← Flow.read fun w => w.host.find? id with
  | none => return false
  | some e =>
    if e.isActive then return true
    match ← Flow.sync (makeContext id path) with
    | none => return false
    | some context =>
      let (exports, hasModule) ← enter code id manifest context
      Flow.pause
      if ← Flow.sync (hostPart.zoom (becomeActive id exports hasModule context)) then
        Flow.sync (emit [.extensionsChanged])
        return true
      else
        Flow.sync (disposeContext code context)
        return false

/-- Activates an extension, and tells whether it is active afterwards.  A disabled one is refused
unless the activation is forced. -/
def activate (id : String) (force : Bool) : Flow (World χ) Bool := do
  Flow.pause
  match ← Flow.read fun w => (w.host.find? id, w.host.isDisabled id) with
  | (none, _) => return false
  | (some e, isDisabled) =>
    if e.isActive then return true
    if !force && isDisabled then return false
    inTurn e.queue (activateInTurn code id e.path e.manifest)

/-- Makes room for the results of activations that are started together. -/
def openJoin (h : Host) : Nat × Host := (h.joined.length, { h with joined := h.joined ++ [[]] })

/-- Notes the result of one of them. -/
def noteJoined (join : Nat) (id : String) (active : Bool) (h : Host) : Unit × Host :=
  ((), { h with joined := h.joined.modify join fun results => results ++ [(id, active)] })

/-- The results noted so far. -/
def joinedResults (join : Nat) (w : World χ) : List (String × Bool) :=
  (w.host.joined[join]?).getD []

/-- Activates the inactive extensions that an event concerns, all at the same time, and gives those
that became active. -/
def activateByEvent (event : String) : Flow (World χ) (List String) := do
  Flow.pause
  let ids ← Flow.read fun w => w.host.candidates event !w.api.folders.isEmpty
  if ids.isEmpty then return []
  let join ← Flow.sync (hostPart.zoom openJoin)
  Flow.each ids fun id => Flow.start .joined do
    let active ← activate code id false
    Flow.sync (hostPart.zoom (noteJoined join id active))
  Flow.untilReady fun w => (joinedResults join w).length == ids.length
  let results ← Flow.read (joinedResults join)
  return ids.filter fun id => results.contains (id, true)

/-! ## Deactivation -/

/-- Marks an active extension as inactive, and gives what it leaves behind. -/
def becomeInactive (id : String) (h : Host) : Option (Bool × Option ContextId) × Host :=
  match h.find? id with
  | none => (none, h)
  | some e =>
    if e.isActive then
      (some (e.hasModule, e.context), h.modify id fun e =>
        { e with isActive := false, exports := .null, hasModule := false, context := none })
    else (none, h)

/-- Drops what an extension left behind. -/
def release (id : String) : StateM (World χ) Unit := do
  change fun api => api.release id
  emit [.extensionsChanged]

/-- Tells an entry module of its deactivation, if there is one. -/
def leave (id : String) (hasModule : Bool) : Flow (World χ) Unit := do
  match (if hasModule then code.entry id else none) with
  | none => return ()
  | some entry => let _ ← entry.deactivate

/-- Deactivates an extension whose turn it is. -/
def deactivateInTurn (id : String) : Flow (World χ) Unit := do
  Flow.pause
  match ← Flow.sync (hostPart.zoom (becomeInactive id)) with
  | none => return ()
  | some (hasModule, context) =>
    leave code id hasModule
    match context with
    | some context => Flow.sync (disposeContext code context)
    | none => pure ()
    Flow.pause
    let _ ← Flow.sync (hostPart.zoom fun h => h.killProcesses fun owner => owner == id)
    Flow.sync (release id)

/-- Deactivates an extension. -/
def deactivate (id : String) : Flow (World χ) (Except Fault Unit) := do
  Flow.pause
  match ← Flow.read fun w => w.host.find? id with
  | none => return .error (.unknownExtension id)
  | some e =>
    inTurn e.queue (deactivateInTurn code id)
    return .ok ()

/-- Deactivates all active extensions, one after another, and kills what processes are left. -/
def teardownHost : Flow (World χ) Unit := do
  Flow.pause
  let ids ← Flow.read fun w => w.host.activeIds
  Flow.each ids fun id => do
    let _ ← deactivate code id
  Flow.pause
  let _ ← Flow.sync (hostPart.zoom fun h => h.killProcesses fun _ => true)

/-! ## Enabling and disabling -/

/-- Does something to the disk in one stretch, or says what went wrong. -/
def onDisk (action : Disk.Action Unit) : Flow (World χ) (Except Fault Unit) :=
  Flow.sync fun w =>
    let (result, disk) := w.disk.perform action
    (result.mapError DiskError.fault, { w with disk })

/-- Writes a file, and the folders above it; in two stretches. -/
def save (file : Path) (content : String) : Flow (World χ) (Except Fault Unit) := do
  Flow.pause
  match ← onDisk (file.folder?.forM Disk.createFolders) with
  | .error fault => return .error fault
  | .ok () =>
    Flow.pause
    onDisk (Disk.writeText file content)

/-- Puts an extension into the set of disabled ones or takes it out, and writes the set. -/
def setDisabled (id : String) (disabled : Bool) : Flow (World χ) (Except Fault Unit) := do
  Flow.pause
  let (changed, h) ← Flow.sync (hostPart.zoom fun h =>
    let (changed, h) := h.mark id disabled
    ((changed, h), h))
  if !changed then return .ok ()
  match ← save h.layout.disabledFile (Host.disabledContent h.disabled) with
  | .error fault => return .error fault
  | .ok () =>
    Flow.sync (emit [.extensionsChanged])
    return .ok ()

/-- Deactivates an extension and disables it. -/
def disable (id : String) : Flow (World χ) (Except Fault Unit) := do
  Flow.pause
  if (← Flow.read fun w => w.host.find? id).isNone then return .error (.unknownExtension id)
  match ← deactivate code id with
  | .error fault => return .error fault
  | .ok () => setDisabled id true

/-- Enables an extension and activates it; tells whether it is active. -/
def enable (id : String) : Flow (World χ) (Except Fault Bool) := do
  match ← setDisabled id false with
  | .error fault => return .error fault
  | .ok () =>
    Flow.pause
    if (← Flow.read fun w => w.host.find? id).isNone then return .ok false
    return .ok (← activate code id true)

/-! ## Commands -/

/-- Activates the extensions that a command concerns, and runs the command. -/
def executeCommand (name : String) (args : List Json) : Flow (World χ) (Outcome Json) := do
  let _ ← activateByEvent code s!"onCommand:{name}"
  runCommand code name args

end World

end EditorHost
