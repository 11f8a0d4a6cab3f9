import EditorHost.Event

/-!
# The status bar

Extensions create status bar items, which are hidden at first.  Whenever what is shown may have
changed, the user interface is told all visible items: those on the left before those on the right,
and on each side by descending priority, older ones first.
-/

namespace EditorHost

structure StatusEntry where
  item : StatusItem
  visible : Bool := false
  deriving DecidableEq, Repr, Inhabited

/-- The items in the order of their creation. -/
structure StatusBar where
  created : Nat := 0
  entries : List StatusEntry := []
  deriving Repr, Inhabited

namespace StatusBar

/-- Whether an item is shown before another one that was created after it. -/
def precedes (a b : StatusItem) : Bool :=
  match a.side, b.side with
  | .left, .right => true
  | .right, .left => false
  | _, _ => decide (b.priority ≤ a.priority)

/-- The visible items as they are shown. -/
def visible (bar : StatusBar) : List StatusItem :=
  ((bar.entries.filter StatusEntry.visible).map StatusEntry.item).mergeSort precedes

/-- The event that tells what is shown. -/
def event (bar : StatusBar) : Event := .statusBarUpdate bar.visible

/-- Creates a hidden item.  Its identifier is not used by any other item. -/
def create (bar : StatusBar) (extension : String) (side : Side) (priority : Int) :
    String × StatusBar :=
  let id := s!"status-item-{bar.created}"
  (id, ⟨bar.created + 1,
    bar.entries ++ [⟨{ id, extension, text := "", side, priority }, false⟩]⟩)

/-- Changes an item; the event is due if it is visible before or after. -/
def update (bar : StatusBar) (id : String) (change : StatusEntry → StatusEntry) :
    List Event × StatusBar :=
  let changed : StatusBar := { bar with
    entries := bar.entries.map fun entry => if entry.item.id = id then change entry else entry }
  let due := bar.entries.any fun entry =>
    decide (entry.item.id = id) && (entry.visible || (change entry).visible)
  (if due then [changed.event] else [], changed)

def setText (bar : StatusBar) (id text : String) : List Event × StatusBar :=
  bar.update id fun entry => { entry with item := { entry.item with text } }

def setTooltip (bar : StatusBar) (id : String) (tooltip : Option String) : List Event × StatusBar :=
  bar.update id fun entry => { entry with item := { entry.item with tooltip } }

/-- Shows or hides an item. -/
def setVisible (bar : StatusBar) (id : String) (visible : Bool) : List Event × StatusBar :=
  bar.update id fun entry => { entry with visible }

/-- Removes the items that a test picks; the event is due if one of them was visible. -/
def removeAll (bar : StatusBar) (goes : StatusItem → Bool) : List Event × StatusBar :=
  let rest : StatusBar := { bar with entries := bar.entries.filter fun entry => !goes entry.item }
  let due := bar.entries.any fun entry => goes entry.item && entry.visible
  (if due then [rest.event] else [], rest)

def remove (bar : StatusBar) (id : String) : List Event × StatusBar :=
  bar.removeAll fun item => item.id == id

/-- Removes the items of an extension. -/
def removeExtension (bar : StatusBar) (extension : String) : List Event × StatusBar :=
  bar.removeAll fun item => item.extension == extension

end StatusBar

end EditorHost
