import EditorHost.Document
import EditorHost.Outcome

/-!
# Listeners

Extensions listen to what happens to documents and settings.  Listeners are called in the order in
which they subscribed; who subscribes while they are called waits for the next time.
-/

namespace EditorHost

/-- What one can listen to. -/
inductive Topic where
  | opened
  | changed
  | closed
  | configured
  deriving DecidableEq, Repr, Inhabited

/-- What a listener is told. -/
inductive Notice where
  | opened (document : DocumentId)
  | changed (document : DocumentId) (changes : List ContentChange)
  | closed (document : Document)
  | configured (key : String)
  deriving DecidableEq, Repr, Inhabited

def Notice.topic : Notice → Topic
  | opened _ => .opened
  | changed _ _ => .changed
  | closed _ => .closed
  | configured _ => .configured

structure Listener where
  id : Nat
  topic : Topic
  callback : Callback
  deriving DecidableEq, Repr, Inhabited

/-- The listeners in the order of their subscription. -/
structure Listeners where
  count : Nat := 0
  entries : List Listener := []
  deriving Repr, Inhabited

namespace Listeners

/-- Subscribes to a topic, and gives the number of the subscription. -/
def add (l : Listeners) (topic : Topic) (callback : Callback) : Nat × Listeners :=
  (l.count, ⟨l.count + 1, l.entries ++ [⟨l.count, topic, callback⟩]⟩)

def remove (l : Listeners) (id : Nat) : Listeners :=
  { l with entries := l.entries.filter fun entry => entry.id != id }

/-- Who is to be told. -/
def callbacks (l : Listeners) (topic : Topic) : List Callback :=
  (l.entries.filter fun entry => entry.topic == topic).map Listener.callback

end Listeners

end EditorHost
