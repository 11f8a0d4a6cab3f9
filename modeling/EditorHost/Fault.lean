/-!
# Faults

What can go wrong in the library, by kind.  No fault is fatal to the host: the caller reports it and
goes on without the feature.  `Fault.message` is the wording shown to people.
-/

namespace EditorHost

/-- Something that went wrong. -/
inductive Fault where
  /-- An extension's manifest that cannot be read or is incomplete. -/
  | manifest (reason : String)
  /-- Code of an extension that failed on activation. -/
  | activation (extension reason : String)
  /-- A message of a language server that is malformed, or an error it answered with. -/
  | protocol (reason : String)
  /-- A request that was not answered in time. -/
  | timeout (method : String) (milliseconds : Nat)
  /-- A language server that cannot be started or has gone away. -/
  | process (reason : String)
  /-- A file operation that failed. -/
  | io (reason : String)
  /-- A value that has the wrong shape. -/
  | json (reason : String)
  | notFound (entity id : String)
  | configuration (reason : String)
  | general (reason : String)
  deriving DecidableEq, Repr, Inhabited

namespace Fault

/-- The wording of a fault. -/
def message : Fault → String
  | .manifest reason => s!"Manifest error: {reason}"
  | .activation extension reason => s!"Activation error in {extension}: {reason}"
  | .protocol reason => s!"Protocol error: {reason}"
  | .timeout method milliseconds => s!"Request '{method}' timed out after {milliseconds}ms"
  | .process reason => s!"Process error: {reason}"
  | .io reason => s!"IO error: {reason}"
  | .json reason => s!"JSON error: {reason}"
  | .notFound entity id => s!"{entity} not found: {id}"
  | .configuration reason => s!"Configuration error: {reason}"
  | .general reason => reason

/-- Whether a request was not answered in time. -/
def isTimeout : Fault → Bool
  | .timeout _ _ => true
  | _ => false

/-- The extension that is not known. -/
def unknownExtension (id : String) : Fault := .notFound "extension" id

/-- The language that no server is configured for. -/
def unknownServer (language : String) : Fault := .notFound "language server" language

end Fault

end EditorHost
