import EditorHost.Fault
import EditorHost.Json.Value
import EditorHost.Outcome
import EditorHost.Text.Split

/-!
# What a transcript says of faults

A transcript states what came of every step of a script.  A fault is stated by its kind and its
wording, of which the part that a library or the operating system adds is left out: it is not the
same everywhere.
-/

namespace EditorHost

/-- The word for the kind of a fault. -/
def Fault.kind : Fault → String
  | .manifest _ => "manifest"
  | .activation _ _ => "activation"
  | .protocol _ => "protocol"
  | .timeout _ _ => "timeout"
  | .process _ => "process"
  | .io _ => "io"
  | .json _ => "json"
  | .notFound _ _ => "not_found"
  | .configuration _ => "config"
  | .general _ => "general"

namespace Transcript

/-- The text before the first place where another one stands. -/
def before? (mark : List Char) : List Char → Option (List Char)
  | [] => if mark = [] then some [] else none
  | c :: rest =>
    if mark.isPrefixOf (c :: rest) then some [] else (before? mark rest).map (c :: ·)

/-- Whether a text stands in another one. -/
def isIn (part text : List Char) : Bool := (before? part text).isSome

/-- Behind these words stands what is left out. -/
def foreignMarks : List String :=
  ["Invalid package.json: ", "Failed to parse JSONC: ", "Invalid lsp settings: ",
    "invalid JSON body: ", "IO error: ", "JSON error: ", "' not found: "]

/-- The text up to a mark that ends in a colon and a blank, without those two. -/
def cutAt? (text : List Char) (mark : List Char) : Option (List Char) :=
  (before? mark text).map fun start => start ++ mark.dropLast.dropLast

/-- The text without what is left out. -/
def cut (text : String) : String :=
  let cs := text.toList
  let unreadable := "package.json: ".toList
  if isIn "Manifest error: Cannot read ".toList cs ∧ isIn unreadable cs then
    String.ofList ((cutAt? cs unreadable).getD cs)
  else
    match foreignMarks.findSome? fun mark => cutAt? cs mark.toList with
    | some start => String.ofList start
    | none => text

/-- A fault as it is stated. -/
def ofFault (fault : Fault) : Json :=
  .ofFields [("error", .text fault.kind), ("message", .text (cut fault.message))]

/-- A result: the value, or the fault. -/
def ofResult (result : Except Fault Json) : Json :=
  match result with
  | .ok v => .ofFields [("ok", v)]
  | .error fault => ofFault fault

/-- A result without a value. -/
def ofUnit (result : Except Fault Unit) : Json := ofResult (result.map fun _ => .null)

/-- What is stated of a value that does not have the form of a type. -/
def unreadable : Json := .ofFields [("error", .text "json")]

/-- What is stated of a step that let a panic through. -/
def panicked : Json := .ofFields [("error", .text "panic")]

/-- What is stated of a step that there is not, or not here. -/
def badStep : Json := .ofFields [("error", .text "bad_step")]

/-- What is stated of a name that stands for nothing. -/
def unknown : Json := .text "unknown"

/-- What came of a command. -/
def ofCommand : Outcome Json → Json
  | .returned v => .ofFields [("ok", v)]
  | .failed failure =>
    .ofFields [("error", .text "command"), ("message", .text failure.message),
      ("chain", .text failure.chain)]
  | .panicked => panicked

end Transcript

end EditorHost
