import EditorHost.Event

/-!
# Collections of diagnostics

An extension publishes diagnostics under the name of a collection.  Every change of what a document
has is told by an event, so that whoever follows the events knows the whole collection.
-/

namespace EditorHost

/-- The diagnostics of an extension by the URI of the document. -/
structure DiagnosticCollection where
  name : String
  entries : Table (List Diagnostic) := []
  deriving DecidableEq, Repr, Inhabited

namespace DiagnosticCollection

/-- The diagnostics of a document. -/
def get (c : DiagnosticCollection) (uri : String) : List Diagnostic := (c.entries.find? uri).getD []

/-- Gives a document its diagnostics; those without a source get the name of the collection. -/
def set (c : DiagnosticCollection) (uri : String) (found : List Diagnostic) :
    List Event × DiagnosticCollection :=
  let found := found.map fun d => { d with source := some (d.source.getD c.name) }
  ([.diagnostics uri c.name found], { c with entries := c.entries.insert uri found })

/-- Forgets the diagnostics of a document. -/
def delete (c : DiagnosticCollection) (uri : String) : List Event × DiagnosticCollection :=
  if c.entries.has uri then
    ([.diagnostics uri c.name []], { c with entries := c.entries.erase uri })
  else ([], c)

/-- Forgets all diagnostics. -/
def clear (c : DiagnosticCollection) : List Event × DiagnosticCollection :=
  (c.entries.keys.map fun uri => .diagnostics uri c.name [], { c with entries := [] })

end DiagnosticCollection

end EditorHost
