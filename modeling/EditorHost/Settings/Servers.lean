import EditorHost.Json.Route
import EditorHost.Json.Slots

/-!
# Settings of language servers

Which program serves a language, what it is told, and how long an answer may take.
-/

namespace EditorHost

open Json (Slot slots)

/-- How the server of a language is started, and what it is told. -/
structure ServerCommand where
  command : String
  args : List String := []
  initializationOptions : Option Json := none
  /-- What the server gets when it asks for its configuration. -/
  settings : Option Json := none
  deriving DecidableEq, Repr, Inhabited

/-- The servers by language, and the time that an answer may take. -/
structure ServerSettings where
  timeout : Nat
  servers : Table ServerCommand
  deriving DecidableEq, Repr, Inhabited

namespace ServerCommand

def toJson (c : ServerCommand) : Json :=
  .ofFields [("command", .text c.command), ("args", .ofTexts c.args),
    ("initializationOptions", .ofOption c.initializationOptions),
    ("settings", .ofOption c.settings)]

def read (v : Json) : Option ServerCommand :=
  match slots ["command", "args", "initializationOptions", "settings"] v with
  | some [command, args, options, settings] => do
    return {
      command := ← command.required Json.asText?
      args := ← args.orElse (Json.readList Json.asText?) []
      initializationOptions := ← options.omittable some
      settings := ← settings.omittable some }
  | _ => none

/-- What the client can do, as a server is told on its start. -/
def capabilities : Json :=
  .ofFields [
    ("textDocument", .ofFields [
      ("synchronization", .ofFields [("dynamicRegistration", .bool false), ("didSave", .bool true),
        ("willSave", .bool false), ("willSaveWaitUntil", .bool false)]),
      ("publishDiagnostics", .ofFields [("relatedInformation", .bool true)]),
      ("hover", .ofFields [("contentFormat", .ofTexts ["markdown", "plaintext"])]),
      ("completion", .ofFields [("completionItem", .ofFields [("snippetSupport", .bool false),
        ("documentationFormat", .ofTexts ["markdown", "plaintext"])])]),
      ("definition", .ofFields [("linkSupport", .bool true)]),
      ("formatting", .empty)]),
    ("workspace", .ofFields [("workspaceFolders", .bool true), ("configuration", .bool true)]),
    ("window", .ofFields [("showMessage", .empty)])]

/-- The settings of a section, or all of them where no section is named; null when there are
none. -/
def configuration (c : ServerCommand) (section? : Option String) : Json :=
  match c.settings with
  | none => .null
  | some settings =>
    match section? with
    | some name => if name = "" then settings else .ofOption (settings.lookup? name)
    | none => settings

end ServerCommand

namespace ServerSettings

/-- The time that an answer may take, in milliseconds, unless the settings say otherwise. -/
def defaultTimeout : Nat := 30000

/-- The servers that are used unless the settings name others. -/
def defaultServers : Table ServerCommand :=
  [("javascript", { command := "typescript-language-server", args := ["--stdio"] }),
    ("python", { command := "pyright-langserver", args := ["--stdio"] }),
    ("rust", { command := "rust-analyzer" }),
    ("typescript", { command := "typescript-language-server", args := ["--stdio"] })]

def default : ServerSettings := ⟨defaultTimeout, defaultServers⟩

def toJson (s : ServerSettings) : Json :=
  .ofFields [("requestTimeoutMs", .whole s.timeout),
    ("servers", .object (s.servers.mapValues ServerCommand.toJson))]

def read (v : Json) : Option ServerSettings :=
  match slots ["requestTimeoutMs", "servers"] v with
  | some [timeout, servers] => do
    return {
      timeout := ← timeout.orElse Json.asNat? defaultTimeout
      servers := ← servers.orElse (Json.readTable ServerCommand.read) defaultServers }
  | _ => none

end ServerSettings

end EditorHost
