import EditorHost.Api

/-!
# Asking providers

A query about a document goes to the registered providers that match it, in the order of their
registration; which ones is settled before the first is asked.  What a provider answers counts only
if it returns: one that fails or panics is passed over.

Completions, definitions and references are put together, hovers are listed, and of edits the first
ones found are taken.
-/

namespace EditorHost

/-- A query about a document, as a provider sees it. -/
inductive Query where
  | completion (position : Position) (trigger : Option String)
  | hover (position : Position)
  | definition (position : Position)
  | references (position : Position) (declaration : Bool)
  | formatting (options : FormattingOptions)
  | rename (position : Position) (name : String)
  deriving DecidableEq, Repr, Inhabited

namespace Query

def capability : Query → Capability
  | completion _ _ => .completion
  | hover _ => .hover
  | definition _ => .definition
  | references _ _ => .references
  | formatting _ => .formatting
  | rename _ _ => .rename

/-- Whether a registration is asked: when completions are asked for after a character, only those
that name it. -/
def concerns (query : Query) (registration : Registration) : Bool :=
  match query with
  | completion _ (some trigger) => registration.triggers.contains trigger
  | _ => true

end Query

namespace Api

/-- The tracked document of a URI and the providers to ask about it. -/
def providersFor (api : Api) (query : Query) (uri : String) :
    Option (DocumentId × List Registration) :=
  match api.documents.find? uri with
  | none => none
  | some id =>
    let language := ((api.documents.object? id).map Document.language).getD ""
    some (id, (api.registry.forDocument query.capability uri language).filter query.concerns)

variable {m : Type → Type} [Monad m] {α : Type}

/-- What all providers answer, one after another. -/
def collect (ask : Registration → m (Outcome α)) : List Registration → m (List α)
  | [] => pure []
  | registration :: rest => do
    let answer ← ask registration
    let others ← collect ask rest
    return answer.value?.toList ++ others

/-- The first answer that satisfies a test; the providers behind it are not asked. -/
def firstWith (good : α → Bool) (ask : Registration → m (Outcome α)) :
    List Registration → m (Option α)
  | [] => pure none
  | registration :: rest => do
    match ← ask registration with
    | .returned answer => if good answer then return some answer else firstWith good ask rest
    | _ => firstWith good ask rest

end Api

end EditorHost
