import EditorHost.Path

/-!
# Reading the command line

The arguments are read from left to right: options of the program first, then a command with what it
works on.  The first argument that does not fit decides; asking for help or for the version ends the
reading as soon as it is met.

## Contents

* `Argument` tells the forms of an argument apart.
* `Command` and `Invocation` are what can be asked for.
* `Invocation.read` reads a list of arguments, `Misuse` says why it cannot be read.
-/

namespace EditorHost.CommandLine

/-! ## Arguments -/

/-- An argument by its form. -/
inductive Argument where
  /-- Two dashes alone: whatever follows is a word. -/
  | separator
  /-- Two dashes and a name, and what stands behind an equals sign. -/
  | long (name : String) (value : Option String)
  /-- A dash and letters, of which the first one counts. -/
  | short (letter : Char)
  | word (text : String)
  deriving DecidableEq, Repr

/-- The form of an argument. -/
def Argument.ofText (text : String) : Argument :=
  match text.toList with
  | ['-', '-'] => .separator
  | '-' :: '-' :: rest =>
    match Text.splitOnce '=' rest with
    | some (name, value) => .long (String.ofList name) (some (String.ofList value))
    | none => .long (String.ofList rest) none
  | '-' :: letter :: _ => .short letter
  | _ => .word text

/-! ## What can be asked for -/

/-- What the program can do with extensions. -/
inductive Command where
  | list
  | install (source : Path)
  | uninstall (id : String)
  | enable (id : String)
  | disable (id : String)
  deriving DecidableEq, Repr

/-- What there is help about. -/
inductive Topic where
  | program
  | list
  | install
  | uninstall
  | enable
  | disable
  | help
  deriving DecidableEq, Repr

/-- The word for a command. -/
def Topic.name : Topic → String
  | .program => "lumen"
  | .list => "list"
  | .install => "install"
  | .uninstall => "uninstall"
  | .enable => "enable"
  | .disable => "disable"
  | .help => "help"

/-- The commands, in the order in which they are shown. -/
def Topic.commands : List Topic := [.list, .install, .uninstall, .enable, .disable, .help]

/-- The command that a word names. -/
def Topic.ofName? (name : String) : Option Topic :=
  Topic.commands.find? fun topic => topic.name == name

/-- The name of the value that a command takes. -/
def Topic.operand? : Topic → Option String
  | .install => some "PATH"
  | .uninstall | .enable | .disable => some "ID"
  | .program | .list | .help => none

/-- The options of the program that take a value. -/
structure Options where
  dataDir : Option String := none
  bundledDir : Option String := none
  deriving DecidableEq, Repr

/-- What the arguments ask for. -/
inductive Invocation where
  | run (options : Options) (command : Command)
  | help (topic : Topic)
  | version
  deriving DecidableEq, Repr

/-- Why arguments cannot be read. -/
inductive Misuse where
  | missingCommand
  | unknownCommand (word : String)
  | unexpected (argument : String)
  | missingValue (option : String)
  | repeated (option : String)
  | missingOperand (name : String)
  | emptyOperand (name : String)
  deriving DecidableEq, Repr

namespace Misuse

/-- The wording of a misuse. -/
def message : Misuse → String
  | .missingCommand => "a command is required but none was given"
  | .unknownCommand word => s!"unrecognized command '{word}'"
  | .unexpected argument => s!"unexpected argument '{argument}' found"
  | .missingValue option => s!"a value is required for '{option} <DIR>' but none was supplied"
  | .repeated option => s!"the argument '{option} <DIR>' cannot be used multiple times"
  | .missingOperand name => s!"the required argument <{name}> was not provided"
  | .emptyOperand name => s!"a value is required for '<{name}>' but none was supplied"

end Misuse

/-! ## Commands -/

/-- The command of a topic and the values given for it. -/
def Command.ofOperands : Topic → List String → Except Misuse Command
  | .list, [] => .ok .list
  | .install, [path] => .ok (.install ⟨path⟩)
  | .uninstall, [id] => .ok (.uninstall id)
  | .enable, [id] => .ok (.enable id)
  | .disable, [id] => .ok (.disable id)
  | topic, [] =>
    match topic.operand? with
    | some name => .error (.missingOperand name)
    | none => .error .missingCommand
  | _, extra :: _ => .error (.unexpected extra)

/-- Takes a word as a value of a command, behind the ones taken already. -/
def takeOperand (topic : Topic) (taken : List String) (word : String) :
    Except Misuse (List String) :=
  match topic.operand? with
  | some name =>
    if ¬taken.isEmpty then .error (.unexpected word)
    else if topic = .install ∧ word = "" then .error (.emptyOperand name)
    else .ok [word]
  | none => .error (.unexpected word)

/-- Reads what follows a command. -/
def readOperands (options : Options) (topic : Topic) (taken : List String) :
    List String → Except Misuse Invocation
  | [] => (Command.ofOperands topic taken).map (.run options)
  | argument :: rest =>
    match Argument.ofText argument with
    | .separator => do
      let taken ← rest.foldlM (takeOperand topic) taken
      (Command.ofOperands topic taken).map (.run options)
    | .long "help" none => .ok (.help topic)
    | .short 'h' => .ok (.help topic)
    | .word word => do readOperands options topic (← takeOperand topic taken word) rest
    | _ => .error (.unexpected argument)

/-- Reads what help is wanted about. -/
def readTopic : List String → Except Misuse Invocation
  | [] => .ok (.help .program)
  | name :: rest =>
    match Topic.ofName? name, rest with
    | some topic, [] => .ok (.help topic)
    | some _, extra :: _ => .error (.unknownCommand extra)
    | none, _ => .error (.unknownCommand name)

/-! ## The whole command line -/

/-- The options with a value for one of them, which can be given once. -/
def Options.set? (options : Options) (name value : String) : Option (Except Misuse Options) :=
  let once (current : Option String) (changed : Options) : Except Misuse Options :=
    if current.isSome then .error (.repeated s!"--{name}") else .ok changed
  match name with
  | "data-dir" => some (once options.dataDir { options with dataDir := some value })
  | "bundled-dir" => some (once options.bundledDir { options with bundledDir := some value })
  | _ => none

/-- Whether an option takes a value. -/
def Options.takesValue (name : String) : Bool := (Options.set? {} name "").isSome

namespace Invocation

/-- Reads arguments behind some options. -/
def readFrom (options : Options) : List String → Except Misuse Invocation
  | [] => .error .missingCommand
  | argument :: rest =>
    match Argument.ofText argument with
    | .separator =>
      match rest with
      | [] => .error .missingCommand
      | word :: _ => .error (.unexpected word)
    | .short 'h' => .ok (.help .program)
    | .short 'V' => .ok .version
    | .short _ => .error (.unexpected argument)
    | .long "help" none => .ok (.help .program)
    | .long "version" none => .ok .version
    | .long name (some value) =>
      match options.set? name value with
      | some changed => do readFrom (← changed) rest
      | none => .error (.unexpected argument)
    | .long name none =>
      if ¬Options.takesValue name then .error (.unexpected argument)
      else
        match rest with
        | [] => .error (.missingValue argument)
        | value :: rest =>
          match Argument.ofText value, options.set? name value with
          | .word _, some changed => do readFrom (← changed) rest
          | _, _ => .error (.missingValue argument)
    | .word word =>
      match Topic.ofName? word with
      | some .help => readTopic rest
      | some topic => readOperands options topic [] rest
      | none => .error (.unknownCommand word)

/-- Reads the arguments of the program. -/
def read (arguments : List String) : Except Misuse Invocation := readFrom {} arguments

end Invocation

end EditorHost.CommandLine
