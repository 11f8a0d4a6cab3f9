import EditorHost.Api.Query
import EditorHost.Extension.Host
import EditorHost.Rpc.Client

/-!
# The world of a running host

Everything that a host works on is one state: the disk, the events told so far, what extensions can
reach, the loaded extensions, the language servers, and whatever the code of extensions keeps for
itself, of which nothing is known here.

The code of extensions is given as a `Code`: for the number of a piece of code it says what a call
does. Listeners and undo actions run in one stretch; providers, commands and entry modules may wait.

## Contents

* `World` and `Code`, and the parts of a world as foci.
* `World.tell` calls listeners, and `World.dispose` undoes a handle.
* Documents, settings and queries, as the editor uses them.
-/

namespace EditorHost

open Rpc (Client LogLevel Effect)

/-- The type of what a provider answers to a query. -/
abbrev Query.Answer : Query → Type
  | .completion _ _ => List CompletionItem
  | .hover _ => Option Hover
  | .definition _ => List Location
  | .references _ _ => List Location
  | .formatting _ => List TextEdit
  | .rename _ _ => Option WorkspaceEdit

/-- A line that a language server wrote to its log. -/
structure LogLine where
  language : String
  level : LogLevel
  text : String
  deriving DecidableEq, Repr, Inhabited

structure World (χ : Type) where
  disk : Disk
  /-- The events told so far. -/
  events : List Event := []
  /-- What language servers logged so far. -/
  log : List LogLine := []
  api : Api
  host : Host
  client : Client
  /-- What the code of extensions keeps for itself. -/
  own : χ

/-- The entry module of an extension. -/
structure Module (χ : Type) where
  /-- Whether building the module succeeds; otherwise it panics. -/
  builds : Bool := true
  activate : ContextId → Flow (World χ) (Outcome Json)
  deactivate : Flow (World χ) (Outcome Unit)

/-- What the code of extensions does. -/
structure Code (χ : Type) where
  listener : Callback → Notice → StateM (World χ) (Outcome Unit)
  undo : Callback → StateM (World χ) (Outcome Unit)
  provider : Callback → DocumentId → (query : Query) → Flow (World χ) (Outcome query.Answer)
  /-- Runs a command; `none` when it panics before its work starts. -/
  command : Callback → List Json → Flow (World χ) (Option (Outcome Json))
  /-- The entry module of the extension with an identifier. -/
  entry : String → Option (Module χ)

/-- Code that does nothing. -/
def Code.idle {χ : Type} : Code χ where
  listener _ _ := return .returned ()
  undo _ := return .returned ()
  provider _ _ _ := .done .panicked
  command _ _ := .done none
  entry _ := none

namespace World

variable {χ : Type}

def apiPart : Focus (World χ) Api := ⟨World.api, fun api w => { w with api }⟩

def hostPart : Focus (World χ) Host := ⟨World.host, fun host w => { w with host }⟩

def clientPart : Focus (World χ) Client := ⟨World.client, fun client w => { w with client }⟩

/-- Tells the user interface. -/
def emit (events : List Event) : StateM (World χ) Unit :=
  modify fun w => { w with events := w.events ++ events }

/-- Changes what extensions can reach, and tells what is due. -/
def change (run : Api → List Event × Api) : StateM (World χ) Unit := do
  emit (← apiPart.zoom run)

/-- Passes on what a message of a language server has to be passed on to. -/
def pass (language : String) : Effect → StateM (World χ) Unit
  | .event event => emit [event]
  | .log level text => modify fun w => { w with log := w.log ++ [⟨language, level, text⟩] }

/-! ## Calling extensions -/

variable (code : Code χ)

/-- Calls the listeners of a notice, in order.  Whether one fails does not matter to the others. -/
def tell (notice : Notice) : StateM (World χ) Unit := do
  for callback in (← get).api.listeners.callbacks notice.topic do
    let _ ← code.listener callback notice

/-- Undoes a handle, if that has not been done. -/
def dispose (handle : HandleId) : StateM (World χ) Unit := do
  let disposal ← apiPart.zoom fun api => api.dispose handle
  emit disposal.events
  match disposal.code with
  | some callback => let _ ← code.undo callback
  | none => return ()

/-- Undoes some handles, in order. -/
def disposeAll (handles : List HandleId) : StateM (World χ) Unit := do
  for handle in handles do dispose code handle

/-! ## Documents and settings -/

/-- Tracks a document. -/
def openDocument (uri language text : String) (version : Int) : StateM (World χ) DocumentId := do
  let (id, notice) ← apiPart.zoom fun api => api.openDocument uri language text version
  match notice with
  | some notice => tell code notice
  | none => pure ()
  return id

/-- Gives a tracked document a new text. -/
def changeDocument (uri : String) (changes : List ContentChange) (text : String) :
    StateM (World χ) (Option DocumentId) := do
  match ← apiPart.zoom fun api => api.changeDocument uri changes text with
  | some (id, notice) =>
    tell code notice
    return some id
  | none => return none

/-- Forgets a document. -/
def closeDocument (uri : String) : StateM (World χ) (Option Document) := do
  let closed ← apiPart.zoom fun api => api.closeDocument uri
  match closed with
  | some document => tell code (.closed document)
  | none => pure ()
  return closed

/-- Changes a setting. -/
def updateConfiguration (key : String) (value : Json) : StateM (World χ) (Except Fault Unit) := do
  match ← apiPart.zoom fun api => api.updateConfiguration key value with
  | .ok notice =>
    tell code notice
    return .ok ()
  | .error fault => return .error fault

/-! ## Commands and queries -/

/-- Runs a command. -/
def runCommand (name : String) (args : List Json) : Flow (World χ) (Outcome Json) := do
  let commands ← Flow.read fun w => w.api.commands
  commands.execute name args code.command

/-- Puts a query to the providers that match a document, in a given way; `fallback` is the answer
when the document is not tracked. -/
def consult (uri : String) (query : Query) (fallback : α)
    (way : (Registration → Flow (World χ) (Outcome query.Answer)) → List Registration →
      Flow (World χ) α) : Flow (World χ) α := do
  match ← Flow.read fun w => w.api.providersFor query uri with
  | none => return fallback
  | some (document, registrations) =>
    way (fun registration => code.provider registration.provider document query) registrations

/-- All completions; after a trigger character, those of the providers that name it. -/
def completions (uri : String) (position : Position) (trigger : Option String) :
    Flow (World χ) (List CompletionItem) := do
  return (← consult code uri (.completion position trigger) [] Api.collect).flatten

/-- The hovers of all providers that have one. -/
def hovers (uri : String) (position : Position) : Flow (World χ) (List Hover) := do
  return (← consult code uri (.hover position) [] Api.collect).filterMap id

def definitions (uri : String) (position : Position) : Flow (World χ) (List Location) := do
  return (← consult code uri (.definition position) [] Api.collect).flatten

def references (uri : String) (position : Position) (declaration : Bool) :
    Flow (World χ) (List Location) := do
  return (← consult code uri (.references position declaration) [] Api.collect).flatten

/-- The edits of the first formatter that has any. -/
def formatting (uri : String) (options : FormattingOptions) : Flow (World χ) (List TextEdit) := do
  return (← consult code uri (.formatting options) none
    (Api.firstWith fun edits => !edits.isEmpty)).getD []

/-- The edit of the first provider that answers with one. -/
def rename (uri : String) (position : Position) (name : String) :
    Flow (World χ) (Option WorkspaceEdit) := do
  return (← consult code uri (.rename position name) none (Api.firstWith Option.isSome)).join

end World

end EditorHost
