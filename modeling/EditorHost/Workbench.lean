import EditorHost.Extension.Install

/-!
# The workbench

What the editor does with a document concerns both sides: extensions, and the language server of the
document.  The workbench tells both, asks both, and starts language servers when they are needed.
-/

namespace EditorHost.World

variable {χ : Type} (code : Code χ)

open Rpc (Client)

/-- What both sides answered to a query. -/
structure Answers (α : Type) where
  extensions : List α
  languageServer : List α
  deriving Inhabited

/-- Loads all extensions, and activates those that wait for the start. -/
def start : Flow (World χ) (List String) := do
  let _ ← discover
  activateByEvent code "onStartupFinished"

/-! ## Documents -/

/-- Starts the server of a language on the side, if it is needed. -/
def ensureServer (language : String) : Flow (World χ) Unit := do
  Flow.pause
  if ← Flow.read fun w => w.client.needsStart language then
    Flow.start .background ((Client.startServer language).focus clientPart)

/-- Opens a document: extensions first, then those that wait for its language, then the language
server. -/
def didOpen (uri language text : String) (version : Int) : Flow (World χ) DocumentId := do
  let id ← Flow.sync (openDocument code uri language text version)
  let _ ← activateByEvent code s!"onLanguage:{language}"
  (Client.didOpen uri language text).focus clientPart
  ensureServer language
  return id

def didChange (uri : String) (changes : List ContentChange) (text : String) :
    Flow (World χ) (Option DocumentId) := do
  match ← Flow.sync (changeDocument code uri changes text) with
  | none => return none
  | some id =>
    (Client.didChange uri text).focus clientPart
    return some id

def didSave (uri : String) : Flow (World χ) Unit := (Client.didSave uri).focus clientPart

def didClose (uri : String) : Flow (World χ) (Option Document) := do
  let closed ← Flow.sync (closeDocument code uri)
  (Client.didClose uri).focus clientPart
  return closed

/-! ## Queries -/

def askCompletions (uri : String) (position : Position) (trigger : Option String) :
    Flow (World χ) (Answers CompletionItem) := do
  return ⟨← completions code uri position trigger,
    (← (Client.completions uri position).focus clientPart).items⟩

def askHover (uri : String) (position : Position) : Flow (World χ) (Answers Hover) := do
  return ⟨← hovers code uri position, (← (Client.hover uri position).focus clientPart).toList⟩

def askDefinition (uri : String) (position : Position) : Flow (World χ) (Answers Location) := do
  return ⟨← definitions code uri position, ← (Client.definition uri position).focus clientPart⟩

def askFormatting (uri : String) (options : FormattingOptions) :
    Flow (World χ) (Answers TextEdit) := do
  return ⟨← formatting code uri options, ← (Client.formatting uri options).focus clientPart⟩

/-! ## The end -/

/-- Deactivates all extensions, and ends all language servers. -/
def teardown : Flow (World χ) Unit := do
  teardownHost code
  Client.forceShutdown.focus clientPart

end EditorHost.World
