import EditorHost.Fault
import EditorHost.Json.Value
import EditorHost.Outcome
import EditorHost.Table

/-!
# Commands

Extensions register commands by name.  A name is taken as long as its registration lasts, and every
registration has a token of its own, so that an old handle does not remove a newer registration of
the same name.
-/

namespace EditorHost

structure Command where
  token : Nat
  extension : String
  handler : Callback
  deriving DecidableEq, Repr, Inhabited

structure Commands where
  nextToken : Nat := 0
  entries : Table Command := []
  deriving Repr, Inhabited

namespace Commands

/-- Registers a command under a name that is not taken, and gives its token. -/
def register (c : Commands) (name extension : String) (handler : Callback) :
    Except Fault Nat × Commands :=
  let token := c.nextToken
  match c.entries.find? name with
  | some command =>
    (.error (.general s!"Command '{name}' already registered by {command.extension}"),
      { c with nextToken := token + 1 })
  | none => (.ok token, ⟨token + 1, c.entries.insert name ⟨token, extension, handler⟩⟩)

/-- Removes a registration, if the name still belongs to it. -/
def unregister (c : Commands) (name : String) (token : Nat) : Commands :=
  match c.entries.find? name with
  | some command => if command.token = token then { c with entries := c.entries.erase name } else c
  | none => c

/-- Runs a command.  `call` runs a handler; it gives `none` when the handler panics before its work
starts, and then so does the command.  A name that nobody registered does nothing. -/
def execute {m : Type → Type} [Monad m] (c : Commands) (name : String) (args : List Json)
    (call : Callback → List Json → m (Option (Outcome Json))) : m (Outcome Json) :=
  match c.entries.find? name with
  | none => pure (.returned .null)
  | some command => do
    match ← call command.handler args with
    | none => return .panicked
    | some .panicked => return .failed ⟨s!"Command '{name}' panicked", []⟩
    | some outcome => return outcome

end Commands

end EditorHost
