/-!
# Outcomes of extension code

Listeners, providers, commands, entry modules and undo actions are code of extensions.  The host
knows such code by a number, calls it, and goes on whatever comes of it: code may return, fail with
an explanation, or panic.
-/

namespace EditorHost

/-- A piece of extension code, by its number. -/
abbrev Callback := Nat

/-- Why extension code failed: a message, and the messages of the causes behind it. -/
structure Failure where
  message : String
  causes : List String := []
  deriving DecidableEq, Repr, Inhabited

/-- All messages, from the outside in. -/
def Failure.chain (f : Failure) : String := ": ".intercalate (f.message :: f.causes)

/-- What came of a call. -/
inductive Outcome (α : Type u) where
  | returned (value : α)
  | failed (failure : Failure)
  | panicked
  deriving DecidableEq, Repr, Inhabited

namespace Outcome

/-- The value of a call that returned. -/
def value? : Outcome α → Option α
  | returned value => some value
  | _ => none

def map (f : α → β) : Outcome α → Outcome β
  | returned value => returned (f value)
  | failed failure => failed failure
  | panicked => panicked

end Outcome

end EditorHost
