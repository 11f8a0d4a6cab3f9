import EditorHost.Extension.Lifecycle

/-!
# What extensions do through their contexts

An extension may keep state on disk, start work in the background that ends with the activation at
the latest, and hand processes over that the host is to kill.
-/

namespace EditorHost.World

variable {χ : Type}

/-- A context as a part of a world. -/
def contextPart (context : ContextId) : Focus (World χ) Context :=
  hostPart.comp (Host.context context)

/-- Changes a key of a memento, and writes the memento. -/
def updateMemento (context : ContextId) (ofWorkspace : Bool) (key : String) (value : Json) :
    Flow (World χ) (Except Fault Unit) := do
  let m ← Flow.sync (((contextPart context).comp (Context.memento ofWorkspace)).zoom fun m =>
    (m.put key value, m.put key value))
  save m.file m.content

/-- Starts work in the background, which is given up on deactivation. -/
def spawn (context : ContextId) (work : Flow (World χ) α) : Flow (World χ) Unit := do
  let number ← Flow.sync ((contextPart context).zoom fun c =>
    (c.started, { c with started := c.started + 1 }))
  .fork .background
    (work.strand.givingUp fun w => number < ((contextPart context).get w).givenUp) (.done ())

/-- Hands a process over. -/
def trackProcess (context : ContextId) (hasEnded : Bool) : StateM (World χ) Unit := do
  let owner := ((contextPart context).get (← get)).extension
  hostPart.zoom fun h => ((), h.trackProcess ⟨owner, hasEnded⟩)

end EditorHost.World
