import EditorHost.CommandLine.Help
import EditorHost.Extension.Install
import EditorHost.Schedule
import EditorHost.Settings.Store

/-!
# Running a command line

A run loads the settings and every extension that it finds, does what the arguments ask for, and
reports what there is to print and how it ended.  It works on a disk as a value: what it changed
there is part of the answer.

No code of extensions runs: a host of the command line only keeps track of what is installed.
-/

namespace EditorHost.CommandLine

/-- How a run ended. -/
inductive Ending where
  | success
  | failure
  | misuse
  deriving DecidableEq, Repr

/-- The exit code of an ending. -/
def Ending.code : Ending → Nat
  | .success => 0
  | .failure => 1
  | .misuse => 2

/-- What a run prints, and how it ended. -/
structure Report where
  ending : Ending
  output : String := ""
  errors : String := ""
  deriving DecidableEq, Repr

/-- Where a run takes place: the folders of the user. -/
structure Surroundings where
  home : Option Path
  /-- Where applications of the user keep their data. -/
  dataHome : Option Path := home.map fun home => home.join ".local/share"

/-! ## Directories -/

/-- A path in which a tilde stands for the home directory, when there is one. -/
def Surroundings.expand (s : Surroundings) (text : String) : Path :=
  match s.home with
  | some home => Path.expandTilde home text
  | none => ⟨text⟩

/-- The layout that the options ask for. -/
def Options.layout (options : Options) (s : Surroundings) : Except Fault Layout := do
  let dataDir ← match options.dataDir, s.dataHome with
    | some dir, _ => .ok (s.expand dir)
    | none, some dataHome => .ok (dataHome.join "lumen")
    | none, none => .error (.configuration "Could not determine a data directory")
  let layout := Layout.ofDataDir dataDir
  return match options.bundledDir with
    | some dir => layout.withBundled (s.expand dir)
    | none => layout

/-- The folders that an invocation may look at. -/
def Invocation.folders (s : Surroundings) : Invocation → List Path
  | .run options command =>
    match options.layout s, command with
    | .ok layout, .install source => [layout.dataDir, layout.bundledExtensions, source]
    | .ok layout, _ => [layout.dataDir, layout.bundledExtensions]
    | .error _, _ => []
  | _ => []

/-! ## Commands -/

/-- The line about an extension: identifier, version and flags. -/
def listed (d : Descriptor) : String :=
  let flags :=
    (if d.isBuiltin then ["bundled"] else []) ++ if d.isDisabled then ["disabled"] else []
  s!"{padded 40 d.id} {padded 10 d.manifest.version} " ++ ", ".intercalate flags

/-- The lines about all extensions. -/
def listing (h : Host) : List String :=
  let lines := h.descriptors.map listed
  if lines.isEmpty then ["No extensions installed"] else lines

/-- Does what a command asks for, and gives the lines to print. -/
def perform {χ : Type} : Command → Flow (World χ) (Except Fault (List String))
  | .list => do return .ok (listing (← Flow.read World.host))
  | .install source => do
    return (← World.install .idle source).map fun d =>
      [s!"Installed {d.id} {d.manifest.version}"]
  | .uninstall id => do
    return (← World.uninstall .idle id).map fun _ => [s!"Uninstalled {id}"]
  | .enable id => do
    return (← World.setDisabled id false).map fun _ => [s!"Enabled {id}"]
  | .disable id => do
    return (← World.setDisabled id true).map fun _ => [s!"Disabled {id}"]

/-- Loads all extensions, does what a command asks for, and keeps what came of it. -/
def session (command : Command) : Flow (World (Except Fault (List String))) Unit := do
  let _ ← World.discover
  let result ← perform command
  Flow.sync fun w => ((), { w with own := result })

/-- The world of a command at its start. -/
def world (disk : Disk) (settings : Settings) : World (Except Fault (List String)) where
  disk
  api := .ofConfiguration settings.tree
  host := .ofDisk disk settings.layout
  client := { settings := settings.servers }
  own := .ok []

/-- Runs a command: the lines to print or a fault, and the disk behind it. -/
def execute (s : Surroundings) (disk : Disk) (options : Options) (command : Command) :
    Except Fault (List String) × Disk :=
  match options.layout s with
  | .error fault => (.error fault, disk)
  | .ok layout =>
    match Settings.load disk layout with
    | .error fault => (.error fault, disk)
    | .ok settings =>
      let w := Schedule.runFlow (session command) (world disk settings)
      (w.own, w.disk)

/-! ## Reports -/

/-- What is reported of the lines to print or a fault. -/
def Report.ofResult : Except Fault (List String) → Report
  | .ok lines => { ending := .success, output := String.join (lines.map (· ++ "\n")) }
  | .error fault => { ending := .failure, errors := s!"error: {fault.message}\n" }

/-- What is reported of arguments that cannot be read. -/
def Report.ofMisuse (misuse : Misuse) : Report where
  ending := .misuse
  errors := s!"error: {misuse.message}\n\nUsage: {Topic.program.usage}\n"

/-- The name and the version of the program. -/
def versionLine : String := "lumen 0.1.0\n"

/-- Runs the program with some arguments. -/
def run (s : Surroundings) (disk : Disk) (arguments : List String) : Report × Disk :=
  match Invocation.read arguments with
  | .error misuse => (.ofMisuse misuse, disk)
  | .ok (.help topic) => ({ ending := .success, output := topic.helpText }, disk)
  | .ok .version => ({ ending := .success, output := versionLine }, disk)
  | .ok (.run options command) =>
    let (result, disk) := execute s disk options command
    (.ofResult result, disk)

end EditorHost.CommandLine
