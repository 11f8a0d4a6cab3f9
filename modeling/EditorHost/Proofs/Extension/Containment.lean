import EditorHost.Extension.Install
import EditorHost.Proofs.Alone
import EditorHost.Proofs.Path
import Mathlib.Data.List.Permutation

/-!
# Where the folders of an extension lie

Three folders are made for an extension under its identifier: the copy that an installation makes
and a removal deletes, the folder for what it stores, and the folder for its logs.  Each is one of
the host's folders joined with the identifier, and the identifier is put together of two texts of
the manifest that may be any texts but blank ones.

So these folders lie inside the host's ones exactly for identifiers that, read as a path, lead down
and never climb out; publishers and names without slashes make such identifiers.  The check before a
removal compares beginnings only, and every relative identifier passes it.

## Strategy

The three folders of the host differ only in their last name.  An identifier that climbs out of them
leads to the same place from each (`under_climbing`), as an absolute one does, and nothing lies
inside two of them.
-/

namespace EditorHost

open EditorHost.Path (Position)

/-- An identifier, read as a path, leads to a place strictly below the one where it starts, and
never above it on the way. -/
def LeadsInside (id : String) : Prop :=
  ∃ names : List String, names ≠ [] ∧ (⟨id⟩ : Path).position = ⟨false, 0, names⟩

/-- A path leads to a place strictly inside the place of another, dots resolved. -/
def Path.LiesInside (p base : Path) : Prop := p.position.Inside base.position

/-- The folders made for an extension lie inside those that the host has for them. -/
structure Layout.Contains (l : Layout) (id : String) : Prop where
  package : (l.userExtensions.join id).LiesInside l.userExtensions
  storage : (l.storageOf id).LiesInside l.storage
  logs : (l.logsOf id).LiesInside l.logs

/-! ## Positions of folders -/

/-- What climbs out of a folder leads to the same place from every folder beside it. -/
theorem Path.Position.under_climbing {p : Position} {ups : Nat} (h : p.ups = ups + 1)
    (base : Position) (name : String) :
    (base.down [name]).under p = base.under { p with ups := ups } := by
  rw [under, h, Function.iterate_succ_apply, up_down_singleton]
  rfl

/-- What leads inside some place leads inside from everywhere. -/
theorem LeadsInside.inside {id : String} (h : LeadsInside id) (p : Path) :
    (p.join id).LiesInside p := by
  obtain ⟨names, hne, hposition⟩ := h
  have hrelative : (⟨id⟩ : Path).isAbsolute = false := by
    rw [← Path.isAbsolute_position, hposition]
  rw [Path.LiesInside, Path.position_join hrelative, hposition]
  exact Position.inside_down p.position hne

/-- What does not lead inside does not lead inside two folders that stand beside each other. -/
theorem leadsInside_of_both {id : String} {dataDir : Path} {first second : String}
    (hne : first ≠ second) (hfirst : (dataDir.join first).position = dataDir.position.down [first])
    (hsecond : (dataDir.join second).position = dataDir.position.down [second])
    (h : ((dataDir.join first).join id).LiesInside (dataDir.join first))
    (h' : ((dataDir.join second).join id).LiesInside (dataDir.join second)) : LeadsInside id := by
  rw [Path.LiesInside, hfirst] at h
  rw [Path.LiesInside, hsecond] at h'
  cases habsolute : (⟨id⟩ : Path).isAbsolute with
  | true =>
      rw [Path.join_absolute habsolute] at h h'
      exact absurd h' (Position.not_inside_both hne h)
  | false =>
      rw [Path.position_join habsolute, hfirst] at h
      rw [Path.position_join habsolute, hsecond] at h'
      have hrelative : (⟨id⟩ : Path).position.isAbsolute = false :=
        (Path.isAbsolute_position _).trans habsolute
      cases hups : (⟨id⟩ : Path).position.ups with
      | succ ups =>
          rw [Position.under_climbing hups] at h h'
          exact absurd h' (Position.not_inside_both hne h)
      | zero =>
          refine ⟨(⟨id⟩ : Path).position.names, fun hnil => h.ne ?_, ?_⟩
          · simp [Position.under, hups, hnil]
          · rw [← hrelative, ← hups]

/-! ## Identifiers -/

/-- A manifest that is read is complete. -/
theorem Manifest.isComplete_of_parse {text : String} {m : Manifest}
    (h : Manifest.parse text = .ok m) : m.isComplete = true := by
  rw [parse] at h
  split at h
  · cases h
  · split at h
    next hcomplete => exact Except.ok.inj h ▸ hcomplete
    · cases h

theorem Manifest.id_eq (m : Manifest) : m.id = m.publisher ++ "." ++ m.name := by
  simp [id, ToString.toString]

/-- The identifier of a complete manifest has at least three characters. -/
theorem Manifest.three_le_length_id {m : Manifest} (h : m.isComplete = true) :
    3 ≤ m.id.toList.length := by
  have hlength {s : String} (hs : Text.isBlankText s = false) : 1 ≤ s.toList.length := by
    cases hchars : s.toList with
    | nil => simp [Text.isBlankText, hchars] at hs
    | cons c rest => simp
  have hboth : Text.isBlankText m.publisher = false ∧ Text.isBlankText m.name = false := by
    simpa [isComplete] using h
  have hpublisher := hlength hboth.1
  have hname := hlength hboth.2
  simp only [id_eq, String.toList_append, List.length_append]
  have hdot : ".".toList.length = 1 := rfl
  omega

/-- What is read from a folder is the text of its manifest. -/
theorem Manifest.ofFolder_eq_ok {disk : Disk} {dir : Path} {m : Manifest} :
    Manifest.ofFolder disk dir = .ok m ↔
      ∃ text, disk.readText (dir.join Manifest.fileName) = .ok text ∧
        Manifest.parse text = .ok m := by
  rw [ofFolder]
  cases disk.readText (dir.join Manifest.fileName) <;> simp

/-- The same, with the text as an option. -/
theorem Manifest.ofFolder_eq_of_readText {disk : Disk} {dir : Path} {text : String} {m : Manifest}
    (hread : (disk.readText (dir.join Manifest.fileName)).toOption = some text)
    (hparse : Manifest.parse text = .ok m) : Manifest.ofFolder disk dir = .ok m := by
  refine Manifest.ofFolder_eq_ok.mpr ⟨text, ?_, hparse⟩
  cases h : disk.readText (dir.join Manifest.fileName) with
  | error e =>
      rw [h] at hread
      cases hread
  | ok own =>
      rw [h] at hread
      exact congrArg _ (Option.some.inj hread)

theorem Manifest.isName_fileName : Path.IsName Manifest.fileName := by decide

/-- The identifier of a manifest is the name of a folder if it has no slash. -/
theorem Manifest.isName_id {disk : Disk} {dir : Path} {m : Manifest}
    (h : Manifest.ofFolder disk dir = .ok m) (hslash : '/' ∉ m.id.toList) :
    Path.IsName m.id := by
  obtain ⟨text, -, hparse⟩ := Manifest.ofFolder_eq_ok.mp h
  have hlength := three_le_length_id (isComplete_of_parse hparse)
  have hshort {s : String} (hs : s.toList.length < 3) : m.id ≠ s := fun heq => by
    rw [heq] at hlength
    omega
  exact ⟨hshort (by decide), hslash, hshort (by decide), hshort (by decide)⟩

/-- A publisher and a name without slashes make an identifier that leads inside. -/
theorem Manifest.leadsInside_of_not_mem {m : Manifest} (h : m.isComplete = true)
    (hpublisher : '/' ∉ m.publisher.toList) (hname : '/' ∉ m.name.toList) : LeadsInside m.id := by
  have hslash : '/' ∉ m.id.toList := by
    simp [id_eq, hpublisher, hname]
  have hlength := three_le_length_id h
  have hshort {s : String} (hs : s.toList.length < 3) : m.id ≠ s := fun heq => by
    rw [heq] at hlength
    omega
  refine ⟨[m.id], List.cons_ne_nil _ _, ?_⟩
  rw [Path.position, Path.parts_of_not_mem hslash (hshort (by decide)),
    Path.isAbsolute_of_not_mem hslash]
  simp [Position.follow, Position.down, hshort (s := ".") (by decide),
    hshort (s := "..") (by decide)]

/-! ## Containment -/

/-- For every manifest that is read, the folders made for the extension lie inside the host's
folders if and only if its identifier leads inside; it does if neither publisher nor name has a
slash.  The check before a removal does not ask for that: every relative identifier passes it. -/
theorem Manifest.contains_iff {text : String} {m : Manifest} (h : Manifest.parse text = .ok m)
    (dataDir bundled : Path) :
    let l := (Layout.ofDataDir dataDir).withBundled bundled
    (l.Contains m.id ↔ LeadsInside m.id) ∧
      ('/' ∉ m.publisher.toList → '/' ∉ m.name.toList → LeadsInside m.id) ∧
      ((⟨m.id⟩ : Path).isAbsolute = false →
        (l.userExtensions.join m.id).startsWith l.userExtensions = true) := by
  intro l
  have hextensions : l.userExtensions.position = dataDir.position.down ["extensions"] :=
    Path.position_join_name (by decide) (by decide) (by decide) (by decide) dataDir
  have hlogs : l.logs.position = dataDir.position.down ["logs"] :=
    Path.position_join_name (by decide) (by decide) (by decide) (by decide) dataDir
  refine ⟨⟨fun hcontains => ?_, fun hinside => ?_⟩, ?_, fun hrelative => ?_⟩
  · exact leadsInside_of_both (by decide) hextensions hlogs hcontains.package hcontains.logs
  · exact ⟨hinside.inside _, hinside.inside _, hinside.inside _⟩
  · exact leadsInside_of_not_mem (isComplete_of_parse h)
  · exact Path.startsWith_join hrelative _

/-- A manifest whose identifier is a name. -/
def plainText : String := "\x7b\"publisher\":\"p\",\"name\":\"x\"\x7d"

theorem contains_plain :
    Manifest.parse plainText = .ok { publisher := "p", name := "x" } ∧
      ((Layout.ofDataDir ⟨"/data"⟩).withBundled ⟨"/app"⟩).Contains "p.x" := by
  have hparse : Manifest.parse plainText = .ok { publisher := "p", name := "x" } := by cbv
  obtain ⟨hiff, hplain, -⟩ := Manifest.contains_iff hparse ⟨"/data"⟩ ⟨"/app"⟩
  exact ⟨hparse, hiff.mpr (hplain (by decide) (by decide))⟩

/-! ## A publisher that leads upwards -/

/-- A manifest whose publisher leads out of the folder of installed extensions. -/
def climbingText : String := "\x7b\"publisher\":\"../victim\",\"name\":\"x\"\x7d"

/-- A disk with an extension to install, and with something of the user's beside the folder of
installed extensions. -/
def climbingDisk : Disk where
  root := .folder [
    ("data", .folder [("extensions", .folder []),
      ("victim.x", .folder [("precious.txt", .file (.text "keep"))])]),
    ("ext", .folder [("package.json", .file (.text climbingText))])]

/-- A host on this disk, with nothing loaded. -/
def climbingWorld : World Unit where
  disk := climbingDisk
  api := {}
  host := .ofDisk climbingDisk (.ofDataDir ⟨"/data"⟩)
  client := { settings := ⟨30000, []⟩ }
  own := ()

/-- What is left of the user's file after an installation, which succeeds. -/
def climbingInstall : Option (Bool × Option Node) :=
  ((World.install Code.idle ⟨"/ext"⟩).alone climbingWorld).map fun r =>
    (r.1.isOk, r.2.disk.root.get? ["data", "victim.x", "precious.txt"])

/-- The manifest is read, the copy does not lie inside the folder of installed extensions, and the
installation deletes what was in its place. -/
theorem not_contains_climbing :
    (∃ m, Manifest.parse climbingText = .ok m ∧ ¬ (Layout.ofDataDir ⟨"/data"⟩).Contains m.id) ∧
      (climbingDisk.root.get? ["data", "victim.x", "precious.txt"]).isSome = true ∧
      climbingInstall.map (fun r => (r.1, r.2.isSome)) = some (true, false) := by
  have hparse : Manifest.parse climbingText =
      .ok { publisher := "../victim", name := "x" } := by cbv
  refine ⟨⟨_, hparse, fun hcontains => ?_⟩, rfl, by decide +kernel⟩
  have houtside : ¬ ((⟨"/data/extensions/../victim.x"⟩ : Path).position.Inside
      (⟨"/data/extensions"⟩ : Path).position) := by decide
  exact houtside hcontains.package

end EditorHost
