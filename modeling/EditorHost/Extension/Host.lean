import EditorHost.Extension.Context
import EditorHost.Extension.Manifest

/-!
# The state of the extension host

The host knows which extensions are loaded and which of them are active, and the set of extensions
that the user disabled.  Activating and deactivating one extension exclude each other: whoever wants
to do either takes a ticket of the extension's queue and waits for its turn.
-/

namespace EditorHost

/-- The number of a context. -/
abbrev ContextId := Nat

/-- The number of a queue. -/
abbrev QueueId := Nat

/-- A loaded extension. -/
structure Extension where
  path : Path
  manifest : Manifest
  /-- Whether it came with the application. -/
  isBuiltin : Bool
  isActive : Bool := false
  /-- What its activation returned. -/
  exports : Json := .null
  /-- Whether its entry module was built, and has to be told of the deactivation. -/
  hasModule : Bool := false
  context : Option ContextId := none
  queue : QueueId
  deriving Inhabited

/-- A process that an extension started. -/
structure ChildProcess where
  owner : String
  hasEnded : Bool
  deriving DecidableEq, Repr, Inhabited

structure Host where
  layout : Layout
  extensions : Table Extension := []
  /-- The identifiers of disabled extensions, sorted. -/
  disabled : List String := []
  processes : List ChildProcess := []
  /-- All contexts ever made. -/
  contexts : List Context := []
  /-- Who waits for each queue, the one whose turn it is first. -/
  queues : List (List Nat) := []
  /-- How many tickets there have been. -/
  tickets : Nat := 0
  /-- What came of activations that were started together. -/
  joined : List (List (String × Bool)) := []
  deriving Inhabited

/-- An extension as it is shown. -/
structure Descriptor where
  id : String
  path : Path
  manifest : Manifest
  isActive : Bool
  isDisabled : Bool
  isBuiltin : Bool
  exports : Json
  deriving Inhabited

namespace Host

/-! ## The set of disabled extensions -/

/-- The set that a file holds; anything but a list of texts counts as the empty set. -/
def readDisabled (disk : Disk) (file : Path) : List String :=
  match disk.readText file with
  | .ok text =>
    let ids := ((Json.parse? text).bind (Json.readList Json.asText?)).getD []
    ids.foldl (fun set id => Selector.insertSorted id set) []
  | .error _ => []

/-- What the file of the set is to hold. -/
def disabledContent (disabled : List String) : String := (Json.ofTexts disabled).indented

/-- The host of a data directory, with nothing loaded. -/
def ofDisk (disk : Disk) (layout : Layout) : Host :=
  { layout, disabled := readDisabled disk layout.disabledFile }

def isDisabled (h : Host) (id : String) : Bool := h.disabled.contains id

/-- Puts an extension into the set of disabled ones, or takes it out; tells whether the set
changed. -/
def mark (h : Host) (id : String) (disabled : Bool) : Bool × Host :=
  if h.isDisabled id = disabled then (false, h)
  else if disabled then (true, { h with disabled := Selector.insertSorted id h.disabled })
  else (true, { h with disabled := h.disabled.filter fun other => other != id })

/-! ## Loaded extensions -/

def find? (h : Host) (id : String) : Option Extension := h.extensions.find? id

def isActive (h : Host) (id : String) : Bool := (h.find? id).any Extension.isActive

/-- Changes a loaded extension. -/
def modify (h : Host) (id : String) (change : Extension → Extension) : Host :=
  { h with extensions := h.extensions.adjust id change }

/-- Forgets a loaded extension. -/
def forget (h : Host) (id : String) : Host := { h with extensions := h.extensions.erase id }

/-- Loads an extension, inactive. -/
def add (h : Host) (id : String) (path : Path) (manifest : Manifest) : Host :=
  let isBuiltin := path.startsWith h.layout.bundledExtensions
  { h with
    extensions := h.extensions.insert id { path, manifest, isBuiltin, queue := h.queues.length }
    queues := h.queues ++ [[]] }

/-- A loaded extension as it is shown. -/
def describe (h : Host) (id : String) (e : Extension) : Descriptor where
  id
  path := e.path
  manifest := e.manifest
  isActive := e.isActive
  isDisabled := h.isDisabled id
  isBuiltin := e.isBuiltin
  exports := e.exports

def descriptor? (h : Host) (id : String) : Option Descriptor := (h.find? id).map (h.describe id)

/-- All loaded extensions, by identifier. -/
def descriptors (h : Host) : List Descriptor := h.extensions.map fun (id, e) => h.describe id e

/-- The inactive extensions that an event activates, disabled ones left out. -/
def candidates (h : Host) (event : String) (workspaceOpen : Bool) : List String :=
  (h.extensions.filter fun (id, e) =>
    !e.isActive && !h.isDisabled id && e.manifest.activatesOn event workspaceOpen).map Prod.fst

/-- The extensions that are active. -/
def activeIds (h : Host) : List String :=
  (h.extensions.filter fun entry => entry.2.isActive).map Prod.fst

/-! ## Queues -/

/-- Takes a ticket of a queue. -/
def takeTicket (h : Host) (queue : QueueId) : Nat × Host :=
  (h.tickets, { h with
    tickets := h.tickets + 1
    queues := h.queues.modify queue fun waiting => waiting ++ [h.tickets] })

/-- Whether it is a ticket's turn. -/
def isTurnOf (h : Host) (queue : QueueId) (ticket : Nat) : Bool :=
  ((h.queues[queue]?).bind List.head?) == some ticket

/-- Gives a ticket back. -/
def giveBack (h : Host) (queue : QueueId) (ticket : Nat) : Host :=
  { h with queues := h.queues.modify queue fun waiting => waiting.erase ticket }

/-! ## Contexts and processes -/

/-- Keeps a context. -/
def addContext (h : Host) (context : Context) : ContextId × Host :=
  (h.contexts.length, { h with contexts := h.contexts ++ [context] })

/-- A context as a part of the host's state. -/
def context (id : ContextId) : Focus Host Context where
  get h := (h.contexts[id]?).getD default
  set c h := { h with contexts := h.contexts.set id c }

/-- Keeps a process in view, and loses those that have ended. -/
def trackProcess (h : Host) (process : ChildProcess) : Host :=
  { h with processes := h.processes.filter (fun p => !p.hasEnded) ++ [process] }

/-- Kills the processes of some extensions, and counts them. -/
def killProcesses (h : Host) (goes : String → Bool) : Nat × Host :=
  ((h.processes.filter fun p => goes p.owner).length,
    { h with processes := h.processes.filter fun p => !goes p.owner })

end Host

end EditorHost
