import EditorHost.CommandLine.Invocation

/-!
# Help about the command line

A help text says in a line what a command does and then how it is used, with a section each for the
commands, the values and the options that it takes.
-/

namespace EditorHost.CommandLine

/-- A text with blanks behind it up to a width, counted in characters. -/
def padded (width : Nat) (text : String) : String :=
  text ++ String.ofList (List.replicate (width - text.length) ' ')

namespace Topic

/-- What a command does. -/
def about : Topic → String
  | .program => "Extension host for the Lumen editor"
  | .list => "List installed extensions"
  | .install => "Install an unpacked extension directory"
  | .uninstall => "Remove a user-installed extension"
  | .enable => "Enable a disabled extension"
  | .disable => "Disable an extension"
  | .help => "Print this message or the help of the given subcommand(s)"

/-- How a command is used. -/
def usage : Topic → String
  | .program => "lumen [OPTIONS] <COMMAND>"
  | .help => "lumen help [COMMAND]..."
  | topic =>
    match topic.operand? with
    | some name => s!"lumen {topic.name} <{name}>"
    | none => s!"lumen {topic.name}"

/-- The values that a command takes, and what they mean. -/
def operands : Topic → List (String × String)
  | .install => [("<PATH>", "Directory containing package.json")]
  | .uninstall | .enable | .disable => [("<ID>", "")]
  | .help => [("[COMMAND]...", "Print help for the subcommand(s)")]
  | .program | .list => []

/-- The options that a command takes, and what they do. -/
def options : Topic → List (String × String)
  | .program =>
    [("    --data-dir <DIR>", "Data directory (defaults to the platform data dir)"),
      ("    --bundled-dir <DIR>",
        "Bundled extensions directory (defaults to <data-dir>/bundled-extensions)"),
      ("-h, --help", "Print help"),
      ("-V, --version", "Print version")]
  | .help => []
  | _ => [("-h, --help", "Print help")]

/-- A section with its entries below each other, in two columns; nothing if there are none. -/
def block (title : String) (entries : List (String × String)) : List String :=
  if entries.isEmpty then []
  else
    let width := (entries.map fun entry => entry.1.length).foldl max 0
    ["", s!"{title}:"] ++ entries.map fun (name, meaning) => s!"  {padded width name}  {meaning}"

/-- The commands below a topic. -/
def subcommands : Topic → List Topic
  | .program => Topic.commands
  | _ => []

/-- The help about a topic. -/
def helpText (topic : Topic) : String :=
  let lines := [topic.about, "", s!"Usage: {topic.usage}"] ++
    block "Commands" (topic.subcommands.map fun command => (command.name, command.about)) ++
    block "Arguments" topic.operands ++
    block "Options" topic.options
  "\n".intercalate lines ++ "\n"

end Topic

end EditorHost.CommandLine
