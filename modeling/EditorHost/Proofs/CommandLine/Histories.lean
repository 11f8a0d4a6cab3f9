import EditorHost.Proofs.CommandLine.Effects

/-!
# Histories of runs

Every run of the program is a process of its own.  All that it knows of the runs before it is what
they left in the data directory.  What the last one left disabled there comes from what all of them
asked for (`CommandLine.disabled_survives`).

An extension whose identifier leads out of the folder of the installed extensions is copied to
another place, and may put a file of its own in place of the one of the disabled extensions
(`CommandLine.install_covers_disabled`).

## Contents

* `CommandLine.Lists` are the rows of a listing, and `CommandLine.list_eq` says that they are
  printed.
* `CommandLine.History`: runs over one data directory, one after another.
* `CommandLine.run_stored` is about one run, `CommandLine.History.stored` about all of them.
-/

namespace EditorHost.CommandLine

variable {d d' : Disk} {base : List String} {dataDir : Path} {s : Surroundings} {options : Options}
  {l : Layout}

/-! ## Listing -/

/-- The rows of a listing: every extension that is found in a data directory once, by identifier.
Under each identifier the first package counts, those of the user's root before the bundled ones. -/
structure Lists (d : Disk) (l : Layout) (rows : List Descriptor) : Prop where
  sorted : (rows.map Descriptor.id).Pairwise (· < ·)
  found : ∀ id p m, (∃ row ∈ rows, row.id = id ∧ row.path = p ∧ row.manifest = m) ↔
    (Discovery.packages d l.userExtensions ++
      Discovery.packages d l.bundledExtensions).findSome? (Manifest.offered d id) = some (p, m)
  disabled : ∀ row ∈ rows, row.isDisabled = (Host.readDisabled d l.disabledFile).contains row.id
  bundled : ∀ row ∈ rows, row.isBuiltin = row.path.startsWith l.bundledExtensions
  loaded : l.userExtensions.startsWith l.bundledExtensions = false →
    l.bundledExtensions.startsWith l.userExtensions = false →
      ∀ row ∈ rows, row.isBuiltin = true ↔ row.path ∈ Discovery.packages d l.bundledExtensions

/-- What a run prints that lists rows. -/
def Report.ofRows (rows : List Descriptor) : Report :=
  .ofResult (.ok (if rows.isEmpty then ["No extensions installed"] else rows.map listed))

theorem lists_discovered (hdata : l.dataDir.Plain base)
    (hl : ∃ bundled, l = (Layout.ofDataDir l.dataDir).withBundled bundled) (hproper : d.Proper) :
    Lists d l ((Host.ofDisk d l).discovered d).descriptors := by
  have hrow {row : Descriptor} : row ∈ ((Host.ofDisk d l).discovered d).descriptors ↔
      ∃ id e, ((Host.ofDisk d l).discovered d).find? id = some e ∧
        ((Host.ofDisk d l).discovered d).describe id e = row := by
    constructor
    · intro h
      obtain ⟨⟨id, e⟩, hmem, hrow⟩ := List.mem_map.mp h
      exact ⟨id, e, Host.sorted_discovered.find?_of_mem hmem, hrow⟩
    · rintro ⟨id, e, hfind, hrow⟩
      exact List.mem_map.mpr ⟨(id, e), Table.mem_of_find? hfind, hrow⟩
  refine ⟨?_, fun id p m => ?_, fun row h => ?_, fun row h => ?_, fun huser hbundled row h => ?_⟩
  · have hids : ((Host.ofDisk d l).discovered d).descriptors.map Descriptor.id =
        ((Host.ofDisk d l).discovered d).extensions.keys := by
      rw [Host.descriptors, List.map_map]
      rfl
    rw [hids]
    exact Host.sorted_discovered
  · have hsource := @Host.source?_foldl_loaded d (Host.ofDisk d l)
      (Discovery.packages d l.userExtensions ++ Discovery.packages d l.bundledExtensions) id
    rw [show (Host.ofDisk d l).source? id = none from rfl, Option.none_or] at hsource
    rw [← hsource]
    constructor
    · rintro ⟨row, h, rfl, rfl, rfl⟩
      obtain ⟨id, e, hfind, rfl⟩ := hrow.mp h
      exact congrArg _ hfind
    · intro h
      obtain ⟨e, hfind, hsame⟩ := Option.map_eq_some_iff.mp h
      obtain ⟨rfl, rfl⟩ := Prod.mk.inj hsame
      exact ⟨_, hrow.mpr ⟨id, e, hfind, rfl⟩, rfl, rfl, rfl⟩
  · obtain ⟨id, e, -, rfl⟩ := hrow.mp h
    exact congrArg (List.contains · id) Host.disabled_discovered
  · obtain ⟨id, e, hfind, rfl⟩ := hrow.mp h
    exact (Host.find?_discovered hfind).2
  · obtain ⟨id, e, hfind, rfl⟩ := hrow.mp h
    obtain ⟨hpath, hstarts⟩ := Host.find?_discovered hfind
    show e.isBuiltin = true ↔ e.path ∈ Discovery.packages d l.bundledExtensions
    rw [hstarts]
    refine ⟨fun hbelow => hpath.resolve_left fun hfound => ?_,
      Discovery.startsWith_of_mem_packages hproper⟩
    have hstands : l.Stands (base ++ ["extensions"]) (base ++ ["disabled-extensions.json"]) := by
      obtain ⟨bundled, hl⟩ := hl
      rw [hl] at huser hbundled ⊢
      exact Layout.stands_ofDataDir hdata ⟨huser, hbundled⟩
    have hnot := hstands.startsWith_user hbelow
    rw [Discovery.startsWith_of_mem_packages hproper hfound] at hnot
    cases hnot

/-! ## Histories -/

/-- A run of the program: its arguments, and how it ended. -/
structure Run where
  arguments : List String
  ending : Ending

/-- What a run asks of the set of disabled extensions, if it succeeds. -/
def Run.requests (r : Run) : List (String × Bool) :=
  match r.ending, Invocation.read r.arguments with
  | .success, .ok (.run _ command) => command.request?.toList
  | _, _ => []

/-- A run that works on a data directory.  It installs only what has an identifier without slashes,
and can delete what it is to uninstall. -/
structure Regular (s : Surroundings) (dataDir : Path) (d : Disk) (options : Options)
    (command : Command) : Prop where
  dataDir : ∀ l, options.layout s = .ok l → l.dataDir = dataDir
  named : ∀ source m, command = .install source → Manifest.ofFolder d source = .ok m →
    '/' ∉ m.id.toList
  removes : ∀ id reason, command = .uninstall id →
    (execute s d options command).1 ≠ .error (.io reason)

/-- Runs of the program over one data directory, one after another; each of them finds the disk as
the one before it left it. -/
inductive History (s : Surroundings) (dataDir : Path) (d : Disk) : List Run → Disk → Prop
  | refl : History s dataDir d [] d
  | run {runs : List Run} {d₁ : Disk} (arguments : List String)
      (h : History s dataDir d runs d₁)
      (hregular : ∀ options command, Invocation.read arguments = .ok (.run options command) →
        Regular s dataDir d₁ options command) :
      History s dataDir d (runs ++ [⟨arguments, (CommandLine.run s d₁ arguments).1.ending⟩])
        (CommandLine.run s d₁ arguments).2

theorem ending_ofResult (result : Except Fault (List String)) :
    (Report.ofResult result).ending = if result.isOk then .success else .failure := by
  cases result <;> rfl

/-- One run leaves disabled what it was asked to, if it succeeds. -/
theorem run_stored {arguments : List String} (hdata : dataDir.Plain base) (ht : d.Tidy base)
    (hregular : ∀ options command, Invocation.read arguments = .ok (.run options command) →
      Regular s dataDir d options command) :
    (CommandLine.run s d arguments).2.Tidy base ∧
      Host.readDisabled (CommandLine.run s d arguments).2
          (Layout.ofDataDir dataDir).disabledFile =
        met (Host.readDisabled d (Layout.ofDataDir dataDir).disabledFile)
          (Run.requests ⟨arguments, (CommandLine.run s d arguments).1.ending⟩) := by
  rw [CommandLine.run, Run.requests]
  cases hread : Invocation.read arguments with
  | error misuse => exact ⟨ht, rfl⟩
  | ok invocation =>
      cases invocation with
      | help topic => exact ⟨ht, rfl⟩
      | version => exact ⟨ht, rfl⟩
      | run options command =>
          have hregular := hregular options command hread
          dsimp only
          cases hlayout : options.layout s with
          | error fault =>
              rw [execute, hlayout]
              exact ⟨ht, rfl⟩
          | ok l =>
              cases hsettings : Settings.load d l with
              | error fault =>
                  rw [execute, hlayout]
                  simp only [hsettings]
                  exact ⟨ht, rfl⟩
              | ok settings =>
                  obtain ⟨w₁, w₂, result, hdisk, hhost, hperform, hexecute⟩ :=
                    execute_eq hlayout hsettings command
                  have hl := Options.exists_withBundled hlayout
                  have hdir := hregular.dataDir l hlayout
                  have hfile : (Layout.ofDataDir dataDir).disabledFile = l.disabledFile := by
                    obtain ⟨bundled, hl⟩ := hl
                    rw [hl, hdir]
                    rfl
                  have hremoves := hregular.removes
                  rw [hexecute] at hremoves ⊢
                  obtain ⟨htidy, hstored⟩ := perform_stored (hdir ▸ hdata) hl ht ⟨hdisk, hhost⟩
                    hregular.named hperform hremoves
                  refine ⟨htidy, ?_⟩
                  rw [hfile, hstored, ending_ofResult]
                  cases result <;> rfl

/-- Behind a history the data directory is as tidy as before, and what is disabled there is what the
runs asked for that succeeded, one after another. -/
theorem History.stored {runs : List Run} (h : History s dataDir d runs d')
    (hdata : dataDir.Plain base) (ht : d.Tidy base) : d'.Tidy base ∧
      Host.readDisabled d' (Layout.ofDataDir dataDir).disabledFile =
        met (Host.readDisabled d (Layout.ofDataDir dataDir).disabledFile)
          (runs.flatMap Run.requests) := by
  induction h with
  | refl => exact ⟨ht, rfl⟩
  | run _ _ hregular ih =>
      obtain ⟨ht₁, hstored⟩ := ih
      obtain ⟨htidy, hrun⟩ := run_stored hdata ht₁ hregular
      refine ⟨htidy, ?_⟩
      rw [hrun, hstored, met, met, met, ← List.foldl_append, List.flatMap_append,
        List.flatMap_singleton]

/-- A run that lists the extensions prints their rows. -/
theorem list_eq {arguments : List String} {settings : Settings} (hdata : l.dataDir.Plain base)
    (hproper : d.Proper) (hread : Invocation.read arguments = .ok (.run options .list))
    (hlayout : options.layout s = .ok l) (hsettings : Settings.load d l = .ok settings) :
    ∃ rows, Lists d l rows ∧ CommandLine.run s d arguments = (.ofRows rows, d) := by
  obtain ⟨w₁, w₂, result, hdisk, hhost, hperform, hexecute⟩ :=
    execute_eq hlayout hsettings .list
  refine ⟨_, lists_discovered hdata (Options.exists_withBundled hlayout) hproper, ?_⟩
  obtain ⟨rfl, hsame⟩ := Prod.mk.inj (Option.some.inj hperform)
  obtain rfl : w₁ = w₂ := hsame
  have hlisting : listing w₁.host = if w₁.host.descriptors.isEmpty then ["No extensions installed"]
      else w₁.host.descriptors.map listed := by
    rw [listing, List.isEmpty_map]
  rw [CommandLine.run, hread]
  simp only [hexecute, hdisk, hlisting]
  rw [Report.ofRows, ← hhost]

/-- Whether extensions are disabled survives any history of runs over a data directory.  The set that
the next run reads is the one that the first run read, with each extension put in that a run was to
disable, and each one taken out that a run was to enable or to uninstall, in the order of the runs,
as far as they succeeded; nothing else changes it.  Whenever the settings can be read, a run lists
every extension that is found, once and by identifier, and says of it whether it is in the set and
whether it came with the application; and only the disk can keep a run from disabling or enabling an
extension. -/
theorem disabled_survives {runs : List Run} (hdata : dataDir.Plain base) (ht : d.Tidy base)
    (h : History s dataDir d runs d') :
    Host.readDisabled d' (Layout.ofDataDir dataDir).disabledFile =
        met (Host.readDisabled d (Layout.ofDataDir dataDir).disabledFile)
          (runs.flatMap Run.requests) ∧
      ∀ arguments options command l settings,
        Invocation.read arguments = .ok (.run options command) → options.layout s = .ok l →
        l.dataDir = dataDir → Settings.load d' l = .ok settings →
          (command = .list →
            ∃ rows, Lists d' l rows ∧ CommandLine.run s d' arguments = (.ofRows rows, d')) ∧
          ∀ id, command = .disable id ∨ command = .enable id →
            ∀ fault, (execute s d' options command).1 = .error fault →
              ∃ reason, fault = .io reason := by
  obtain ⟨htidy, hstored⟩ := h.stored hdata ht
  refine ⟨hstored, fun arguments options command l settings hread hlayout hdir hsettings => ⟨?_, ?_⟩⟩
  · rintro rfl
    exact list_eq (hdir ▸ hdata) htidy.proper hread hlayout hsettings
  · intro id hcommand fault hfault
    obtain ⟨w₁, w₂, result, -, -, hperform, hexecute⟩ := execute_eq hlayout hsettings command
    rw [hexecute] at hfault
    obtain rfl : result = .error fault := hfault
    have hset {disabled : Bool} {lines : Unit → List String}
        (h : ((World.setDisabled id disabled).bind fun result =>
          .done (result.map lines)).alone w₁ = some (.error fault, w₂)) :
        ∃ reason, fault = .io reason := by
      obtain ⟨changed, w₃, hset, h⟩ := Flow.alone_bind_eq_some h
      obtain ⟨hresult, -⟩ := Prod.mk.inj (Option.some.inj h)
      cases changed with
      | ok _ => cases hresult
      | error other =>
          cases hresult
          exact World.setDisabled_error hset
    rcases hcommand with rfl | rfl <;> exact hset hperform

/-! ## A history -/

/-- A user without a home directory. -/
def homeless : Surroundings := { home := none }

/-- A disk with an extension that is installed and a bundled one, both disabled, and one that can be
installed. -/
def firstDisk : Disk where
  root := .folder [
    ("data", .folder [
      ("bundled-extensions", .folder [
        ("q.c", .folder [("package.json",
          .file (.text "\x7b\"publisher\":\"q\",\"name\":\"c\"\x7d"))])]),
      ("disabled-extensions.json", .file (.text "[\"p.a\",\"q.c\"]")),
      ("extensions", .folder [
        ("p.a", .folder [("package.json",
          .file (.text "\x7b\"publisher\":\"p\",\"name\":\"a\"\x7d"))])])]),
    ("ext", .folder [("package.json",
      .file (.text "\x7b\"publisher\":\"p\",\"name\":\"b\"\x7d"))])]

theorem tidy_firstDisk : firstDisk.Tidy ["data"] := by
  have hfile (text : String) : (Node.file (.text text)).Proper := .file _
  have hplain (text : String) : (Node.file (.text text)).Linkless := .file _
  have hlinkless : firstDisk.root.Linkless := by
    simp [firstDisk, Node.linkless_folder_iff, hplain]
  refine ⟨?_, fun other _ target => hlinkless.faceAt_ne_link other target,
    fun other _ target => hlinkless.faceAt_ne_link other target⟩
  simp only [Disk.Proper, firstDisk, Node.proper_folder_iff, hfile, Table.Sorted, Table.keys,
    List.forall_mem_cons, List.not_mem_nil, false_imp_iff, implies_true, and_true, List.map_cons,
    List.map_nil]
  decide

/-- What comes of a command over the data directory. -/
def dataRun (d : Disk) (command : Command) : Except Fault (List String) × Disk :=
  execute homeless d { dataDir := some "/data" } command

/-- One more run over the data directory. -/
theorem History.next {runs : List Run} (h : History homeless ⟨"/data"⟩ d runs d')
    (words : List String) (command : Command) (result : Except Fault (List String))
    (hread : Invocation.read ("--data-dir" :: "/data" :: words) =
      .ok (.run { dataDir := some "/data" } command))
    (hresult : (dataRun d' command).1 = result) (hio : ∀ reason, result ≠ .error (.io reason))
    (hnamed : ∀ source m, command = .install source → Manifest.ofFolder d' source = .ok m →
      '/' ∉ m.id.toList) :
    History homeless ⟨"/data"⟩ d
      (runs ++ [⟨"--data-dir" :: "/data" :: words, (Report.ofResult result).ending⟩])
      (dataRun d' command).2 := by
  have hrun : CommandLine.run homeless d' ("--data-dir" :: "/data" :: words) =
      (.ofResult result, (dataRun d' command).2) := by
    rw [CommandLine.run, hread, ← hresult]
    rfl
  have hnext := h.run ("--data-dir" :: "/data" :: words) fun options other hother => by
    rw [hread] at hother
    cases hother
    refine ⟨fun l hl => ?_, hnamed, fun _ reason _ => hresult ▸ hio reason⟩
    cases hl
    rfl
  rwa [hrun] at hnext

/-- An extension is installed, and the others are to be uninstalled.  The bundled one cannot be and
stays disabled; the other one is gone, and with it that it was disabled. -/
theorem disabled_survives_first : ∃ d',
    History homeless ⟨"/data"⟩ firstDisk
      [⟨["--data-dir", "/data", "install", "/ext"], .success⟩,
        ⟨["--data-dir", "/data", "uninstall", "q.c"], .failure⟩,
        ⟨["--data-dir", "/data", "uninstall", "p.a"], .success⟩] d' ∧
      Host.readDisabled firstDisk ⟨"/data/disabled-extensions.json"⟩ = ["p.a", "q.c"] ∧
      Host.readDisabled d' ⟨"/data/disabled-extensions.json"⟩ = ["q.c"] := by
  have h₀ : History homeless ⟨"/data"⟩ firstDisk [] firstDisk := .refl
  have h₁ := h₀.next ["install", "/ext"] (.install ⟨"/ext"⟩) (.ok ["Installed p.b 0.0.0"])
    (by decide +kernel) (by decide +kernel) nofun (by
      intro source m hsource hm
      cases hsource
      have hall : (Manifest.ofFolder firstDisk ⟨"/ext"⟩).toOption.all
          fun m => !m.id.toList.contains '/' := by
        decide +kernel
      simpa [hm, Except.toOption] using hall)
  have h₂ := h₁.next ["uninstall", "q.c"] (.uninstall "q.c")
    (.error (.general "Extension q.c is bundled and cannot be uninstalled"))
    (by decide +kernel) (by decide +kernel) nofun nofun
  have h₃ := h₂.next ["uninstall", "p.a"] (.uninstall "p.a") (.ok ["Uninstalled p.a"])
    (by decide +kernel) (by decide +kernel) nofun nofun
  have hdata : (⟨"/data"⟩ : Path).Plain ["data"] := ⟨by decide, by decide, by decide⟩
  refine ⟨_, h₃, by decide +kernel, ?_⟩
  refine (disabled_survives hdata tidy_firstDisk h₃).1.trans ?_
  decide +kernel

/-! ## An identifier that leads elsewhere -/

/-- A data directory in which a bundled extension is disabled.  The identifier of the extension
outside of it leads back to the data directory. -/
def coveredDisk : Disk where
  root := .folder [
    ("data", .folder [
      ("bundled-extensions", .folder [
        ("q.c", .folder [("package.json",
          .file (.text "\x7b\"publisher\":\"q\",\"name\":\"c\"\x7d"))])]),
      ("disabled-extensions.json", .file (.text "[\"q.c\"]"))]),
    ("ext", .folder [
      ("disabled-extensions.json", .file (.text "[]")),
      ("package.json", .file (.text "\x7b\"publisher\":\".\",\"name\":\"/\"\x7d"))])]

/-- The installation succeeds and asks nothing of the set, and the bundled extension is not disabled
any more. -/
theorem install_covers_disabled :
    Run.requests ⟨["--data-dir", "/data", "install", "/ext"], .success⟩ = [] ∧
      Host.readDisabled coveredDisk ⟨"/data/disabled-extensions.json"⟩ = ["q.c"] ∧
      (CommandLine.run homeless coveredDisk ["--data-dir", "/data", "install", "/ext"]).1 =
        { ending := .success, output := "Installed ../ 0.0.0\n" } ∧
      Host.readDisabled
        (CommandLine.run homeless coveredDisk ["--data-dir", "/data", "install", "/ext"]).2
        ⟨"/data/disabled-extensions.json"⟩ = [] := by
  decide +kernel

end EditorHost.CommandLine
