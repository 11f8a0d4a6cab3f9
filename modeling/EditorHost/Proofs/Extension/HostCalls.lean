import EditorHost.Proofs.Guarantee
import EditorHost.Proofs.Table
import EditorHost.Workbench

/-!
# Calls that activate and deactivate extensions

Extensions are activated and deactivated by calls of several kinds, which may all be under way at
the same time.  Each call takes a ticket of an extension before it does anything to the extension,
so what becomes of an extension depends on the order in which calls get in line for it.

Extensions are not loaded or uninstalled meanwhile, and their code does not meddle with the host's
books (`Code.SparesHost`).  A call that the code of an extension makes is one more call under way,
for whose end the code may wait.
-/

namespace EditorHost

open Interleaving (Move Pool System Task)

variable {χ : Type}

/-- A call upon which extensions may become active or inactive. -/
inductive HostCall where
  | activate (id : String) (force : Bool)
  | activateByEvent (event : String)
  | deactivate (id : String)
  | disable (id : String)
  | enable (id : String)
  | teardownHost
  | didOpen (uri language text : String) (version : Int)
  | teardown
  deriving DecidableEq

namespace HostCall

/-- What the call does; nobody asks for its value. -/
def flow (code : Code χ) : HostCall → Flow (World χ) Unit
  | activate id force => do let _ ← World.activate code id force
  | activateByEvent event => do let _ ← World.activateByEvent code event
  | deactivate id => do let _ ← World.deactivate code id
  | disable id => do let _ ← World.disable code id
  | enable id => do let _ ← World.enable code id
  | teardownHost => World.teardownHost code
  | didOpen uri language text version => do
    let _ ← World.didOpen code uri language text version
  | teardown => World.teardown code

/-- Whether an extension is to be active when the call is through with it. -/
def activates : HostCall → Bool
  | activate .. | activateByEvent _ | enable _ | didOpen .. => true
  | deactivate _ | disable _ | teardownHost | teardown => false

end HostCall

/-- The calls as a system.  Whatever else happens meanwhile changes the world in some way. -/
def hostCalls (code : Code χ) : System HostCall (World χ → World χ) (World χ) Unit where
  flow := HostCall.flow code
  outside change := change

/-! ## The host's books -/

/-- Nobody is busy with an extension: every one has a queue of its own, and nobody is in it.  Only
an active extension has a module that was built. -/
structure Host.Idle (code : Code χ) (h : Host) : Prop where
  queues : ∀ line ∈ h.queues, line = []
  room : ∀ id e, h.find? id = some e → e.queue < h.queues.length
  owners : ∀ id other e e', h.find? id = some e → h.find? other = some e' →
    e.queue = e'.queue → id = other
  modules : ∀ id e, h.find? id = some e → e.hasModule = true →
    e.isActive = true ∧ (code.entry id).isSome = true

theorem Host.find?_modify (h : Host) (id other : String) (change : Extension → Extension) :
    (h.modify id change).find? other =
      if other = id then (h.find? other).map change else h.find? other :=
  Table.find?_adjust h.extensions id other change

theorem Host.find?_add (h : Host) (id other : String) (path : Path) (manifest : Manifest) :
    (h.add id path manifest).find? other =
      if other = id then
        some { path, manifest, isBuiltin := path.startsWith h.layout.bundledExtensions,
               queue := h.queues.length }
      else h.find? other :=
  Table.find?_insert h.extensions id other _

theorem Host.descriptor?_add (h : Host) (id : String) (path : Path) (manifest : Manifest) :
    (h.add id path manifest).descriptor? id = some {
      id, path, manifest, isActive := false, isDisabled := h.isDisabled id,
      isBuiltin := path.startsWith h.layout.bundledExtensions, exports := .null } := by
  rw [Host.descriptor?, Host.find?_add, if_pos rfl]
  rfl

theorem Host.extensions_mark (h : Host) (id : String) (disabled : Bool) :
    (h.mark id disabled).2.extensions = h.extensions := by
  unfold mark
  split
  · rfl
  · split <;> rfl

theorem Host.layout_mark (h : Host) (id : String) (disabled : Bool) :
    (h.mark id disabled).2.layout = h.layout := by
  unfold mark
  split
  · rfl
  · split <;> rfl

/-- Before anything is loaded nobody is busy. -/
theorem Host.idle_ofDisk (code : Code χ) (disk : Disk) (layout : Layout) :
    (Host.ofDisk disk layout).Idle code where
  queues _ h := nomatch h
  room _ _ h := nomatch h
  owners _ _ _ _ h := nomatch h
  modules _ _ h := nomatch h

/-- A loaded extension is inactive, with a new queue. -/
theorem Host.Idle.add {code : Code χ} {h : Host} (hidle : h.Idle code) (id : String) (path : Path)
    (manifest : Manifest) : (h.add id path manifest).Idle code := by
  have hlength : (h.add id path manifest).queues.length = h.queues.length + 1 := by simp [Host.add]
  have hqueue {other : String} {e : Extension}
      (he : (h.add id path manifest).find? other = some e) :
      (other = id ∧ e.queue = h.queues.length ∧ e.hasModule = false) ∨
        (h.find? other = some e ∧ e.queue < h.queues.length) := by
    rw [Host.find?_add] at he
    split at he
    next hother =>
      cases he
      exact .inl ⟨hother, rfl, rfl⟩
    · exact .inr ⟨he, hidle.room other e he⟩
  refine ⟨fun line hline => ?_, fun other e he => ?_, fun one other e e' he he' hsame => ?_,
    fun other e he hmodule => ?_⟩
  · rcases List.mem_append.mp hline with hline | hline
    · exact hidle.queues line hline
    · exact List.mem_singleton.mp hline
  · rw [hlength]
    rcases hqueue he with ⟨-, hlast, -⟩ | ⟨-, hlt⟩
    · exact Nat.lt_succ_of_le (Nat.le_of_eq hlast)
    · exact Nat.lt_succ_of_lt hlt
  · rcases hqueue he with ⟨hone, hlast, -⟩ | ⟨hone, hlt⟩ <;>
      rcases hqueue he' with ⟨hother, hlast', -⟩ | ⟨hother, hlt'⟩
    · exact hone.trans hother.symm
    · exact absurd (hsame.symm.trans hlast) (Nat.ne_of_lt hlt')
    · exact absurd (hsame.trans hlast') (Nat.ne_of_lt hlt)
    · exact hidle.owners one other e e' hone hother hsame
  · rcases hqueue he with ⟨-, -, hnone⟩ | ⟨hold, -⟩
    · simp [hnone] at hmodule
    · exact hidle.modules other e hold hmodule

namespace World

/-- The host has the extensions that it had, in the same states, and who waits waits still. -/
structure SameHost (w w' : World χ) : Prop where
  extensions : w'.host.extensions = w.host.extensions
  disabled : w'.host.disabled = w.host.disabled
  queues : w'.host.queues = w.host.queues
  tickets : w'.host.tickets = w.host.tickets

theorem SameHost.refl (w : World χ) : SameHost w w := ⟨rfl, rfl, rfl, rfl⟩

/-- A loaded extension becomes active. -/
theorem zoom_becomeActive {id : String} {e : Extension} {w : World χ}
    (hfind : w.host.find? id = some e) (exports : Json) (hasModule : Bool) (context : ContextId) :
    hostPart.zoom (becomeActive id exports hasModule context) w =
      (true, hostPart.modify (fun h => h.modify id fun e =>
        { e with isActive := true, exports, hasModule, context := some context }) w) := by
  have hget : (hostPart.get w).find? id = some e := hfind
  simp [Focus.zoom, Focus.modify, becomeActive, hget]

/-- An active extension becomes inactive. -/
theorem zoom_becomeInactive {id : String} {e : Extension} {w : World χ}
    (hfind : w.host.find? id = some e) (hactive : e.isActive = true) :
    hostPart.zoom (becomeInactive id) w =
      (some (e.hasModule, e.context), hostPart.modify (fun h => h.modify id fun e => { e with
        isActive := false, exports := .null, hasModule := false, context := none }) w) := by
  have hget : (hostPart.get w).find? id = some e := hfind
  simp [Focus.zoom, Focus.modify, becomeInactive, hget, hactive]

/-- The tickets of an extension that are out, the one whose turn it is first. -/
def lineOf (id : String) (w : World χ) : List Nat :=
  ((w.host.find? id).bind fun e => w.host.queues[e.queue]?).getD []

/-- Whether an activation of an extension finds a place for its context. -/
def CanMake (id : String) (w : World χ) : Prop :=
  ∀ path, (makeContext id path w).1.isSome = true

end World

/-- Code of extensions that leaves the host's books to the host. -/
structure Code.SparesHost (code : Code χ) : Prop where
  listener : ∀ callback notice, Keeps World.SameHost (code.listener callback notice)
  undo : ∀ callback, Keeps World.SameHost (code.undo callback)
  activate : ∀ id entry, code.entry id = some entry →
    ∀ context, (entry.activate context).Within World.SameHost
  deactivate : ∀ id entry, code.entry id = some entry → entry.deactivate.Within World.SameHost

/-! ## A small world -/

/-- Code whose entry modules take a while to be activated and to be deactivated. -/
def Code.slow : Code Unit :=
  { Code.idle with
    entry := fun _ => some
      { activate := fun _ => (Flow.sleep 10).bind fun _ => .done (.returned .null)
        deactivate := (Flow.sleep 10).bind fun _ => .done (.returned ()) } }

theorem Code.sparesHost_slow : Code.slow.SparesHost where
  listener _ _ := World.SameHost.refl
  undo _ := World.SameHost.refl
  activate id entry hentry context := by
    cases hentry
    exact fun _ => trivial
  deactivate id entry hentry := by
    cases hentry
    exact fun _ => trivial

/-- A world with extensions that are to be activated for Python. -/
def World.ofExtensions (own : χ) (ids : List String) : World χ where
  disk := .empty
  api := {}
  host := ids.foldl (fun h id => h.add id ⟨"/" ++ id⟩
    { main := some "main.js", activationEvents := ["onLanguage:python"] })
    (.ofDisk .empty (.ofDataDir ⟨"/data"⟩))
  client := { settings := ⟨30000, []⟩ }
  own

theorem World.idle_ofExtensions (code : Code χ) (own : χ) (ids : List String) :
    (World.ofExtensions own ids).host.Idle code := by
  have hfold (h : Host) (hidle : h.Idle code) : (ids.foldl (fun h id => h.add id ⟨"/" ++ id⟩
      { main := some "main.js", activationEvents := ["onLanguage:python"] }) h).Idle code := by
    induction ids generalizing h with
    | nil => exact hidle
    | cons id ids ih => exact ih _ (hidle.add id _ _)
  exact hfold _ (Host.idle_ofDisk code _ _)

/-- A run in a world with one extension, which is activated for Python. -/
def HostCall.pythonRun (moves : List (Move HostCall (World Unit → World Unit))) :
    Pool HostCall (World Unit) Unit :=
  (hostCalls Code.slow).run { state := World.ofExtensions () ["me.py"] } moves

/-! ## Getting in line -/

namespace HostCall

/-- Whether a move makes a call get in line for an extension. -/
def getsInLine (code : Code χ) (id : String) (p : Pool HostCall (World χ) Unit)
    (move : Move HostCall (World χ → World χ)) : Bool :=
  (((hostCalls code).step p move).state.lineOf id).any fun ticket =>
    !(p.state.lineOf id).contains ticket

/-- The call that takes its turn by a move. -/
def caller? (p : Pool HostCall (World χ) Unit) :
    Move HostCall (World χ → World χ) → Option HostCall
  | .turn n => (p.tasks[n]?).map Task.call
  | _ => none

/-- The call that got in line for an extension last, among those behind an earlier one. -/
def lastInLine (code : Code χ) (id : String) (earlier : Option HostCall) :
    Pool HostCall (World χ) Unit → List (Move HostCall (World χ → World χ)) → Option HostCall
  | _, [] => earlier
  | p, move :: moves =>
    lastInLine code id (if getsInLine code id p move then caller? p move else earlier)
      ((hostCalls code).step p move) moves

end HostCall

end EditorHost
