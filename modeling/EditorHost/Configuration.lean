import EditorHost.Settings.Store

/-!
# Configuration as extensions see it

An extension looks at a section of the settings as it is at one moment.  When a setting changes, it
is told the key and can ask whether a section is affected.
-/

namespace EditorHost

/-- A section of the settings at one moment; null when there is none. -/
structure Configuration where
  name : String
  value : Json
  deriving DecidableEq, Repr, Inhabited

namespace Configuration

/-- A section of a settings tree; the empty name is the whole tree. -/
def ofTree (tree : Json) (name : String) : Configuration := ⟨name, .ofOption (tree.lookup? name)⟩

/-- The value of a key. -/
def get? (c : Configuration) (key : String) : Option Json := c.value.lookup? key

/-- Whether a key has a value that is not null. -/
def has (c : Configuration) (key : String) : Bool := (c.get? key).any fun v => !v.isNull

/-- Whether a key is another one, or lies below it. -/
def within (inner outer : String) : Bool :=
  inner == outer || (outer.toList ++ ['.']).isPrefixOf inner.toList

/-- Whether a change of a key affects a section: one above it, the key itself, or one below it. -/
def affects (key name : String) : Bool := name == "" || within key name || within name key

/-- Fills in defaults for settings that have no value. -/
def seed (tree : Json) (defaults : List (String × Json)) : Json :=
  defaults.foldl (fun tree entry =>
    match tree.lookup? entry.1 with
    | some _ => tree
    | none => (Settings.put tree entry.1 entry.2).toOption.getD tree) tree

end Configuration

end EditorHost
