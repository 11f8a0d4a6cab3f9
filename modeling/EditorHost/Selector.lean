import EditorHost.Json.Slots
import EditorHost.Text.Glob
import EditorHost.Uri

/-!
# Document selectors

A selector says which documents a provider is for: those of a language, those whose path matches a
glob pattern, those that pass a filter, or those that any of several selectors matches.

For a quick look-up a selector also has keys: the languages that it names, and whether some part of
it can only be decided for a concrete document.
-/

namespace EditorHost

open Json (Slot slots field?)

/-- A filter; what is not set lets every document pass. -/
structure DocumentFilter where
  language : Option String := none
  scheme : Option String := none
  pattern : Option String := none
  deriving DecidableEq, Repr, Inhabited

inductive Selector where
  /-- A language, `*` for every language, or a glob pattern such as `*.py`. -/
  | language (text : String)
  | filter (filter : DocumentFilter)
  | many (selectors : List Selector)
  deriving Repr, Inhabited

/-- The languages that a selector names, in order, and whether a part of it looks at the
document. -/
structure SelectorKeys where
  languages : List String := []
  hasPatterns : Bool := false
  deriving DecidableEq, Repr, Inhabited

namespace DocumentFilter

def toJson (f : DocumentFilter) : Json :=
  .ofFields (field? "language" (f.language.map .text) ++ field? "scheme" (f.scheme.map .text) ++
    field? "pattern" (f.pattern.map .text))

def read (v : Json) : Option DocumentFilter :=
  match slots ["language", "scheme", "pattern"] v with
  | some [language, scheme, pattern] => do
    return ⟨← language.omittable Json.asText?, ← scheme.omittable Json.asText?,
      ← pattern.omittable Json.asText?⟩
  | _ => none

end DocumentFilter

namespace Selector

/-- The text that stands for every language. -/
def wildcard : String := "*"

def any : Selector := .language wildcard

/-- Whether the text of a selector is a glob pattern and not a language. -/
def isGlob (text : String) : Bool :=
  text ≠ wildcard && text.toList.any fun c => c == '*' || c == '?' || c == '['

/-- What a glob pattern is matched against: the path of a document, or its URI where it has none. -/
def globTarget (uri : String) : String := ((Uri.toPath? uri).map Path.text).getD uri

/-- Whether the document of a URI matches a glob pattern. -/
def globMatches (pattern uri : String) : Bool := Glob.matches? pattern (globTarget uri)

/-! ## Keys -/

/-- Puts a text into a list in increasing order, once. -/
def insertSorted (text : String) : List String → List String
  | [] => [text]
  | t :: rest =>
    if text = t then t :: rest
    else if text < t then text :: t :: rest
    else t :: insertSorted text rest

namespace Keys

def language (keys : SelectorKeys) (text : String) : SelectorKeys :=
  { keys with languages := insertSorted text keys.languages }

def pattern (keys : SelectorKeys) : SelectorKeys := { keys with hasPatterns := true }

end Keys

mutual
/-- Adds the keys of a selector to others. -/
def addKeys (keys : SelectorKeys) : Selector → SelectorKeys
  | .language text => if isGlob text then Keys.pattern keys else Keys.language keys text
  | .filter f =>
    match f with
    | ⟨some name, none, none⟩ => Keys.language keys name
    | _ => Keys.pattern keys
  | .many selectors => addAllKeys keys selectors

/-- Adds the keys of several selectors to others. -/
def addAllKeys (keys : SelectorKeys) : List Selector → SelectorKeys
  | [] => keys
  | s :: rest => addAllKeys (addKeys keys s) rest
end

/-- The keys of a selector. -/
def keys (s : Selector) : SelectorKeys := addKeys {} s

/-! ## Matching -/

/-- Whether a selector matches every document of a language. -/
def matchesLanguage (s : Selector) (language : String) : Bool :=
  s.keys.languages.contains wildcard || s.keys.languages.contains language

/-- Whether a document passes a filter. -/
def passes (f : DocumentFilter) (uri language : String) : Bool :=
  (f.language.all fun l => l == wildcard || l == language) &&
    (f.scheme.all fun s => Uri.scheme? uri == some s) &&
    (f.pattern.all fun p => globMatches p uri)

mutual
/-- Whether a selector matches a document. -/
def matchesDocument (uri language : String) : Selector → Bool
  | .language text =>
    if text = wildcard then true
    else if isGlob text then globMatches text uri
    else text == language
  | .filter f => passes f uri language
  | .many selectors => matchesAny uri language selectors

/-- Whether one of several selectors matches a document. -/
def matchesAny (uri language : String) : List Selector → Bool
  | [] => false
  | s :: rest => matchesDocument uri language s || matchesAny uri language rest
end

/-! ## JSON -/

mutual
def toJson : Selector → Json
  | .language text => .text text
  | .filter f => f.toJson
  | .many selectors => .array (toJsonAll selectors)

def toJsonAll : List Selector → List Json
  | [] => []
  | s :: rest => toJson s :: toJsonAll rest
end

mutual
/-- Reads a selector: a text, a filter, or else a list of selectors. -/
def read (v : Json) : Option Selector :=
  match v with
  | .text s => some (.language s)
  | .array items =>
    match DocumentFilter.read (.array items) with
    | some f => some (.filter f)
    | none => (readAll items).map .many
  | v => (DocumentFilter.read v).map .filter

def readAll : List Json → Option (List Selector)
  | [] => some []
  | v :: rest => do return (← read v) :: (← readAll rest)
end

end Selector

end EditorHost
