import EditorHost.Commands
import EditorHost.Configuration
import EditorHost.DiagnosticCollection
import EditorHost.Document
import EditorHost.Listeners
import EditorHost.OutputChannel
import EditorHost.Registry
import EditorHost.StatusBar

/-!
# What extensions can reach

One state is shared by all extensions and the editor: open documents, providers, commands,
listeners, settings, the status bar and collections of diagnostics.

Whatever an extension registers can be undone by a handle.  A handle is undone at most once: its
action is taken out before it runs, so that an action that comes back to its own handle finds it
undone.

The operations change the state and tell what else is due: events for the user interface, and
notices for the listeners.
-/

namespace EditorHost

/-- What undoing a handle does. -/
inductive Undo where
  /-- Runs code of the extension. -/
  | code (callback : Callback)
  | listener (id : Nat)
  | command (name : String) (token : Nat)
  | registration (id : RegistrationId)
  | statusItem (id : String)
  /-- Empties a collection of diagnostics. -/
  | collection (id : Nat)
  deriving DecidableEq, Repr, Inhabited

/-- The number of a handle. -/
abbrev HandleId := Nat

structure Api where
  documents : DocumentStore := {}
  registry : Registry := {}
  commands : Commands := {}
  listeners : Listeners := {}
  /-- The settings tree, an object. -/
  configuration : Json := .empty
  folders : List String := []
  statusBar : StatusBar := {}
  collections : List DiagnosticCollection := []
  /-- What undoing each handle does, as long as it is not undone. -/
  handles : List (Option Undo) := []
  deriving Repr, Inhabited

namespace Api

/-- The owner of what the host itself registers. -/
def hostOwner : String := "lumen.host"

/-- The state at the start; settings that are not an object count as none. -/
def ofConfiguration (tree : Json) : Api :=
  { configuration := if tree.isObject then tree else .empty }

/-! ## Handles -/

/-- Makes a handle. -/
def keep (api : Api) (undo : Undo) : HandleId × Api :=
  (api.handles.length, { api with handles := api.handles ++ [some undo] })

/-- Whether a handle has been undone. -/
def isUndone (api : Api) (handle : HandleId) : Bool := ((api.handles[handle]?).getD none).isNone

/-- Changes a collection of diagnostics. -/
def changeCollection (api : Api) (id : Nat)
    (change : DiagnosticCollection → List Event × DiagnosticCollection) : List Event × Api :=
  match api.collections[id]? with
  | none => ([], api)
  | some collection =>
    let (events, collection) := change collection
    (events, { api with collections := api.collections.set id collection })

/-- Changes the status bar. -/
def changeStatusBar (api : Api) (change : StatusBar → List Event × StatusBar) : List Event × Api :=
  let (events, statusBar) := change api.statusBar
  (events, { api with statusBar })

/-- Undoes what is not code of an extension. -/
def undo (api : Api) : Undo → List Event × Api
  | .code _ => ([], api)
  | .listener id => ([], { api with listeners := api.listeners.remove id })
  | .command name token => ([], { api with commands := api.commands.unregister name token })
  | .registration id => ([], { api with registry := (api.registry.unregister id).2 })
  | .statusItem id => api.changeStatusBar fun bar => bar.remove id
  | .collection id => api.changeCollection id DiagnosticCollection.clear

/-- What disposing of a handle leaves to do: code to run, and events to tell. -/
structure Disposal where
  code : Option Callback := none
  events : List Event := []
  deriving DecidableEq, Repr, Inhabited

/-- Undoes a handle, if that has not been done. -/
def dispose (api : Api) (handle : HandleId) : Disposal × Api :=
  match (api.handles[handle]?).getD none with
  | none => ({}, api)
  | some action =>
    let taken := { api with handles := api.handles.set handle none }
    match action with
    | .code callback => ({ code := some callback }, taken)
    | action =>
      let (events, api) := taken.undo action
      ({ events }, api)

/-! ## Registering -/

/-- Registers a provider. -/
def registerProvider (api : Api) (capability : Capability) (selector : Selector)
    (provider : Callback) (extension : String) (triggers : List String) : HandleId × Api :=
  let (id, registry) := api.registry.register capability selector provider extension triggers
  { api with registry }.keep (.registration id)

/-- Subscribes a listener. -/
def listen (api : Api) (topic : Topic) (callback : Callback) : HandleId × Api :=
  let (id, listeners) := api.listeners.add topic callback
  { api with listeners }.keep (.listener id)

/-- Registers a command. -/
def registerCommand (api : Api) (name extension : String) (handler : Callback) :
    Except Fault HandleId × Api :=
  match api.commands.register name extension handler with
  | (.error fault, commands) => (.error fault, { api with commands })
  | (.ok token, commands) =>
    let (handle, api) := { api with commands }.keep (.command name token)
    (.ok handle, api)

/-- Makes a collection of diagnostics. -/
def createCollection (api : Api) (name : String) : Nat × Api :=
  (api.collections.length, { api with collections := api.collections ++ [⟨name, []⟩] })

/-- Makes a status bar item. -/
def createStatusItem (api : Api) (extension : String) (side : Side) (priority : Int) :
    String × Api :=
  let (id, statusBar) := api.statusBar.create extension side priority
  (id, { api with statusBar })

/-- Drops the providers and status bar items that an extension left behind. -/
def release (api : Api) (extension : String) : List Event × Api :=
  let registry := (api.registry.unregisterExtension extension).2
  { api with registry }.changeStatusBar fun bar => bar.removeExtension extension

/-! ## Documents -/

/-- Tracks a document.  Only the first opening of a URI is told. -/
def openDocument (api : Api) (uri language text : String) (version : Int) :
    (DocumentId × Option Notice) × Api :=
  let ((id, isNew), documents) := api.documents.openDocument uri language text version
  ((id, if isNew then some (.opened id) else none), { api with documents })

/-- Gives a tracked document a new text.  Where the editor reports no changes, the whole text is
one. -/
def changeDocument (api : Api) (uri : String) (changes : List ContentChange) (text : String) :
    Option (DocumentId × Notice) × Api :=
  match api.documents.change uri text with
  | (none, _) => (none, api)
  | (some id, documents) =>
    let changes := if changes.isEmpty then [⟨none, text⟩] else changes
    (some (id, .changed id changes), { api with documents })

/-- Forgets a document. -/
def closeDocument (api : Api) (uri : String) : Option Document × Api :=
  let (closed, documents) := api.documents.close uri
  (closed, { api with documents })

/-! ## Settings -/

/-- A section of the settings as they are now. -/
def section? (api : Api) (name : String) : Configuration := .ofTree api.configuration name

/-- Changes a setting. -/
def updateConfiguration (api : Api) (key : String) (value : Json) : Except Fault Notice × Api :=
  match Settings.put api.configuration key value with
  | .ok configuration => (.ok (.configured key), { api with configuration })
  | .error fault => (.error fault, api)

/-- Fills in the defaults that an extension declares. -/
def seed (api : Api) (defaults : List (String × Json)) : Api :=
  { api with configuration := Configuration.seed api.configuration defaults }

end Api

end EditorHost
