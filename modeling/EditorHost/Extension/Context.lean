import EditorHost.Api
import EditorHost.Extension.Memento
import EditorHost.Flow
import EditorHost.Settings.Layout

/-!
# Contexts of activations

Every activation of an extension gets a context: where it may store things and write logs, state
that is kept on disk, the handles that are undone on deactivation, and the work in the background
that is given up then.
-/

namespace EditorHost

structure Context where
  extension : String
  path : Path
  globalStorage : Path
  workspaceStorage : Path
  logs : Path
  globalState : Memento
  workspaceState : Memento
  /-- The handles to undo, in the order in which they were handed over. -/
  subscriptions : List HandleId := []
  /-- How many pieces of work were started in the background. -/
  started : Nat := 0
  /-- How many of them, from the first on, have been given up. -/
  givenUp : Nat := 0
  deriving Inhabited

namespace Context

/-- Makes the folders of an extension, in order, and its context. -/
def prepare (layout : Layout) (extension : String) (path : Path) : Disk.Action Context := do
  let storage := layout.storageOf extension
  let globalStorage := storage.join "global"
  let workspaceStorage := storage.join "workspace"
  let logs := layout.logsOf extension
  [globalStorage, workspaceStorage, logs].forM Disk.createFolders
  let disk ← get
  return {
    extension, path, globalStorage, workspaceStorage, logs
    globalState := .load disk (storage.join Memento.fileName)
    workspaceState := .load disk (workspaceStorage.join Memento.fileName) }

/-- One of the two mementos as a part of a context. -/
def memento (ofWorkspace : Bool) : Focus Context Memento where
  get c := if ofWorkspace then c.workspaceState else c.globalState
  set m c := if ofWorkspace then { c with workspaceState := m } else { c with globalState := m }

/-- Hands a handle over. -/
def subscribe (c : Context) (handle : HandleId) : Context :=
  { c with subscriptions := c.subscriptions ++ [handle] }

/-- Takes the handles out, the last one first. -/
def drain (c : Context) : List HandleId × Context :=
  (c.subscriptions.reverse, { c with subscriptions := [] })

/-- Gives up all background work that was started so far. -/
def giveUp (c : Context) : Context := { c with givenUp := c.started }

end Context

end EditorHost
