import EditorHost.Outcome
import EditorHost.Selector

/-!
# Registered providers

Extensions register providers of a capability for the documents that a selector matches.  Providers
are asked in the order of their registration.

A registration is filed under every language that its selector names, so that a language is looked
up without going through all selectors; a registration whose selector also looks at paths or schemes
is filed apart, and those are matched against the concrete document.
-/

namespace EditorHost

/-- What a provider can do. -/
inductive Capability where
  | completion
  | hover
  | definition
  | references
  | formatting
  | rename
  deriving DecidableEq, Repr, Inhabited

namespace Capability

def name : Capability → String
  | completion => "completion"
  | hover => "hover"
  | definition => "definition"
  | references => "references"
  | formatting => "formatting"
  | rename => "rename"

def all : List Capability := [completion, hover, definition, references, formatting, rename]

/-- Other words for capabilities. -/
def aliases : List (String × Capability) :=
  [("reference", references), ("documentFormatting", formatting)]

/-- The capability of a word. -/
def ofText (text : String) : Except String Capability :=
  match Table.find? (all.map (fun c => (c.name, c)) ++ aliases) text with
  | some c => .ok c
  | none => .error s!"Unknown provider capability: {text}"

def toJson (c : Capability) : Json := .text c.name

def read (v : Json) : Option Capability := Json.readName .null (all.map fun c => (c.name, c)) v

end Capability

/-- The number of a registration; later registrations have greater numbers. -/
abbrev RegistrationId := Nat

structure Registration where
  id : RegistrationId
  capability : Capability
  selector : Selector
  provider : Callback
  extension : String
  /-- The characters after which completions are asked for. -/
  triggers : List String := []
  deriving Repr, Inhabited

structure Registry where
  /-- How many registrations there have been. -/
  count : Nat := 0
  /-- The registrations in force, in order. -/
  live : List Registration := []
  /-- What is filed under a capability and a language. -/
  byLanguage : List ((Capability × String) × RegistrationId) := []
  /-- What is to be matched against the document. -/
  byPattern : List (Capability × RegistrationId) := []
  deriving Repr, Inhabited

namespace Registry

def find? (r : Registry) (id : RegistrationId) : Option Registration :=
  r.live.find? fun registration => registration.id == id

/-- Registers a provider under every language that its selector names. -/
def register (r : Registry) (capability : Capability) (selector : Selector) (provider : Callback)
    (extension : String) (triggers : List String) : RegistrationId × Registry :=
  let id := r.count + 1
  let keys := selector.keys
  (id, {
    count := id
    live := r.live ++ [⟨id, capability, selector, provider, extension, triggers⟩]
    byLanguage := r.byLanguage ++ keys.languages.map fun language => ((capability, language), id)
    byPattern := if keys.hasPatterns then r.byPattern ++ [(capability, id)] else r.byPattern })

/-- Removes a registration from wherever it is filed; tells whether it was in force. -/
def unregister (r : Registry) (id : RegistrationId) : Bool × Registry :=
  match r.find? id with
  | none => (false, r)
  | some registration =>
    let filed := registration.selector.keys.languages.map fun l => (registration.capability, l)
    (true, { r with
      live := r.live.filter fun entry => entry.id != id
      byLanguage := r.byLanguage.filter fun entry => !(entry.2 == id && filed.contains entry.1)
      byPattern := r.byPattern.filter fun entry =>
        !(entry.2 == id && entry.1 == registration.capability) })

/-- Removes the registrations of an extension, and counts them. -/
def unregisterExtension (r : Registry) (extension : String) : Nat × Registry :=
  ((r.live.filter fun entry => entry.extension == extension).map Registration.id).foldl
    (fun (count, r) id =>
      let (removed, r) := r.unregister id
      (if removed then count + 1 else count, r)) (0, r)

/-- The registrations in force among some, each once and in order. -/
def resolve (r : Registry) (ids : List RegistrationId) : List Registration :=
  r.live.filter fun entry => ids.contains entry.id

/-- What is filed under a capability and a language. -/
def filedUnder (r : Registry) (capability : Capability) (language : String) : List RegistrationId :=
  (r.byLanguage.filter fun entry => entry.1 == (capability, language)).map Prod.snd

/-- The numbers of the registrations that match every document of a language. -/
def idsForLanguage (r : Registry) (capability : Capability) (language : String) :
    List RegistrationId :=
  r.filedUnder capability language ++ r.filedUnder capability Selector.wildcard

/-- The registrations that match every document of a language. -/
def forLanguage (r : Registry) (capability : Capability) (language : String) : List Registration :=
  r.resolve (r.idsForLanguage capability language)

/-- Whether a registration in force matches a document. -/
def isMatching (r : Registry) (uri language : String) (id : RegistrationId) : Bool :=
  (r.find? id).any fun entry => entry.selector.matchesDocument uri language

/-- The registrations that match a document. -/
def forDocument (r : Registry) (capability : Capability) (uri language : String) :
    List Registration :=
  let filed := (r.forLanguage capability language).map Registration.id
  let apart := (r.byPattern.filter fun entry => entry.1 == capability).map Prod.snd
  r.resolve (filed ++ apart.filter (r.isMatching uri language))

/-- The characters after which some provider completes in a language, sorted. -/
def triggers (r : Registry) (language : String) : List String :=
  ((r.forLanguage .completion language).flatMap Registration.triggers).foldl
    (fun sorted text => Selector.insertSorted text sorted) []

end Registry

end EditorHost
