import EditorHost.Proofs.Disk.Replacing

/-!
# An installation that succeeds

An installation takes the extension that has the identifier already out of the host, removes its
folder, copies the new one and loads it.  What is left is an exact replacement: below the target
stands what the source holds and nothing else, no other place has changed but for new folders on the
way to the target, and the host lists the extension once, inactive.  An installation of the folder
that is installed already leaves the disk alone and loads it again (`install_replaces`).

The old folder is looked for before the folders on the way to it are made.  So this takes a root
whose path leads to its place already while the target is away: links and dots may stand on the part
of the way that is there, but not behind a name that is not.  Otherwise the old folder is not found,
and its files stay under the new ones (`install_keeps_old`).

## Contents

* `Disk.Replaced`, and `Disk.Cleared.replaced`: a copy where nothing was left.
* `World.install_eq_ok`: what an installation does, call by call.
* `World.Replacement` and `install_replaces`.
-/

namespace EditorHost

open Disk (Cleared Confined)

variable {χ : Type} {code : Code χ} {w w' : World χ} {d d₁ d' : Disk} {source target : Path}
  {place parts : List String} {name : String} {m m' : Manifest} {descriptor : Descriptor}

/-! ## Manifests -/

/-- A manifest that is read where less is left is read. -/
theorem Manifest.ofFolder_mono {d d' : Disk} (hhere : d'.here = d.here) (hextends : d.Extends d')
    {dir : Path} {m : Manifest} (h : Manifest.ofFolder d dir = .ok m) :
    Manifest.ofFolder d' dir = .ok m := by
  obtain ⟨text, hread, hparse⟩ := Manifest.ofFolder_eq_ok.mp h
  exact Manifest.ofFolder_eq_ok.mpr ⟨text, Disk.readText_mono hhere hextends hread, hparse⟩

/-- A manifest that is read while a place is away is read whatever has been made of the place. -/
theorem Disk.Confined.ofFolder (h : Confined place d d') (hne : place ≠ []) {dir : Path}
    (hread : Manifest.ofFolder (d.without place) dir = .ok m) : Manifest.ofFolder d' dir = .ok m :=
  Manifest.ofFolder_mono (d := d.without place) h.here (h.extends_without hne) hread

/-- Two paths that lead to the same folder give the same manifest. -/
theorem Manifest.ofFolder_of_samePlace {disk : Disk} {dir dir' : Path} {m m' : Manifest}
    (hsame : disk.samePlace dir dir' = true) (h : Manifest.ofFolder disk dir = .ok m)
    (h' : Manifest.ofFolder disk dir' = .ok m') : m = m' := by
  obtain ⟨text, hread, hparse⟩ := Manifest.ofFolder_eq_ok.mp h
  obtain ⟨text', hread', hparse'⟩ := Manifest.ofFolder_eq_ok.mp h'
  have hrelative := Path.isAbsolute_of_not_mem Manifest.isName_fileName.no_slash
  have hnode := Disk.nodeAt_join_of_samePlace hrelative hsame (Disk.readText_eq_ok.mp hread)
    (Disk.readText_eq_ok.mp hread')
  obtain rfl : text = text' := by simpa using hnode
  exact Except.ok.inj (hparse.symm.trans hparse')

/-- A folder with a manifest can be found. -/
theorem Manifest.exists_locate {disk : Disk} {dir : Path} (hne : dir.text ≠ "")
    (hslash : dir.endsInSlash = false) (h : Manifest.ofFolder disk dir = .ok m) :
    ∃ found, disk.locate dir = .ok found := by
  obtain ⟨text, hread, -⟩ := Manifest.ofFolder_eq_ok.mp h
  obtain ⟨found, hfound, -⟩ := Disk.nodeAt_eq_ok.mp (Disk.readText_eq_ok.mp hread)
  exact Disk.exists_locate_of_join
    (Path.isAbsolute_of_not_mem Manifest.isName_fileName.no_slash) hne hslash hfound

/-- The manifest of a folder is the file that stands there. -/
theorem Manifest.parse_of_ofFolder {disk : Disk} {dir : Path} {place : List String} {text : String}
    {m : Manifest} (hlocate : disk.locate dir = .ok place)
    (hface : disk.faceAt (place ++ [Manifest.fileName]) = some (.file (.text text)))
    (h : Manifest.ofFolder disk dir = .ok m) : Manifest.parse text = .ok m := by
  obtain ⟨own, hread, hparse⟩ := Manifest.ofFolder_eq_ok.mp h
  obtain ⟨found, entries, hfound, hentries, hfile⟩ :=
    Disk.follow_of_nodeAt_join Manifest.isName_fileName (Disk.readText_eq_ok.mp hread)
  obtain rfl : found = place := Except.ok.inj (hfound.symm.trans (Disk.follow_of_locate hlocate))
  rw [Disk.faceAt_concat hentries] at hface
  rcases hfile with ⟨target, hlink⟩ | hfile
  · rw [hlink] at hface
    cases hface
  · rw [hfile] at hface
    obtain rfl : own = text := by simpa [Node.face] using hface
    exact hparse

/-! ## What a copy leaves -/

/-- At a place there is a copy of the folder that a path led to, and the target leads there; neither
of the two lies in the other.  Beside the place nothing is different but folders on the way. -/
structure Disk.Replaced (source target : Path) (place : List String) (d d' : Disk) : Prop where
  confined : Confined place d d'
  target : d'.locate target = .ok place
  source : ∃ own, d.locate source = .ok own ∧ d.faceAt own = some .folder ∧
    ¬ own <+: place ∧ ¬ place <+: own ∧
    d'.Mirrors source (fun names => d.faceAt (own ++ names)) place

/-- A folder that was copied to where nothing was left of an old one has replaced it. -/
theorem Disk.Cleared.replaced (hcleared : Cleared (place ++ [name]) d d₁) (hproper : d.Proper)
    (hleads : (d.without (place ++ [name])).Leads (startOf target d.here) parts place)
    (hparts : target.parts = parts ++ [name]) (hname : Path.IsName name)
    (hcopy : d₁.perform (copyTree source target) = (.ok (), d'))
    (hfound : ∃ found, d'.locate target = .ok found) :
    Replaced source target (place ++ [name]) d d' := by
  have htext : target.text ≠ "" := Path.text_ne_empty_of_parts (by simp [hparts])
  have hhere := hcleared.confined.here
  have hleads₁ := hcleared.confined.leads hleads
  rw [← hhere] at hleads₁
  obtain ⟨own, hlocate, hfolder, habove, hbelow, hconfined, hleads', hmirrors⟩ :=
    mirrors_copyTree (hcleared.confined.proper hproper) htext hleads₁ hname hparts hcleared.bare
      hcopy
  refine ⟨hcleared.confined.trans hconfined, ?_, own, locate_mono hhere.symm hcleared.less hlocate,
    hcleared.less own _ hfolder, habove, hbelow, ?_⟩
  · obtain ⟨found, hfound⟩ := hfound
    exact hleads'.eq_of_follow (follow_of_locate hfound) ▸ hfound
  · -- What is copied lies elsewhere, so that it was the same before.
    have hsame : (fun names => d₁.faceAt (own ++ names)) =
        fun names => d.faceAt (own ++ names) := by
      funext names
      refine hcleared.confined.faceAt_eq (fun hway => ?_) fun hway => ?_
      · rcases List.prefix_or_prefix_of_prefix hway (List.prefix_append own names) with h | h
        · exact hbelow h
        · exact habove h
      · exact habove ((List.prefix_append own names).trans hway)
    exact hsame ▸ hmirrors

/-- The copy of an extension has its manifest. -/
theorem Disk.Replaced.manifest (h : Replaced source target place d d') (hne : place ≠ [])
    (hsource : Manifest.ofFolder (d.without place) source = .ok m)
    (htarget : Manifest.ofFolder d' target = .ok m') : m' = m := by
  obtain ⟨text, hread, hparse⟩ := Manifest.ofFolder_eq_ok.mp hsource
  have hkept {d₂ : Disk} (hd : Confined place d d₂) :
      d₂.nodeAt (source.join Manifest.fileName) = .ok (.file (.text text)) :=
    readText_eq_ok.mp (readText_mono (d := d.without place) hd.here (hd.extends_without hne) hread)
  obtain ⟨own, hown, -, -, -, hmirrors⟩ := h.source
  have hface := hmirrors.faceAt_file Manifest.isName_fileName hown (hkept (.refl place d))
    (hkept h.confined)
  exact Except.ok.inj ((Manifest.parse_of_ofFolder h.target hface htarget).symm.trans hparse)

/-! ## The record of an extension -/

/-- An extension that is added to those of other identifiers is listed once. -/
theorem Host.filter_descriptors_add {h : Host} {id : String} (hnone : h.find? id = none)
    {path : Path} {manifest : Manifest}
    (hshown : (h.add id path manifest).descriptor? id = some descriptor) :
    (h.add id path manifest).descriptors.filter (fun shown => shown.id == id) = [descriptor] := by
  obtain ⟨e, hfind, rfl⟩ := Option.map_eq_some_iff.mp hshown
  have hnew := (Host.find?_add h id id path manifest).symm.trans hfind
  rw [if_pos rfl, Option.some.injEq] at hnew
  have honce := Table.filter_insert_of_find?_none hnone e
  rw [← hnew] at honce ⊢
  exact (List.filter_map ..).trans (congrArg (List.map _) honce)

namespace World

/-- Where the user's copy of an extension is. -/
abbrev ownFolder (w : World χ) (id : String) : Path := w.host.layout.userExtensions.join id

/-- What an installation has done that succeeded. -/
structure Replacement (code : Code χ) (source : Path) (place : List String) (m : Manifest)
    (descriptor : Descriptor) (w w' : World χ) : Prop where
  /-- One that is loaded is deactivated and forgotten before the disk changes. -/
  deactivated : ∀ e, w.host.find? m.id = some e → ∃ u : World χ,
    (deactivate code m.id).alone w = some (.ok (), u) ∧ u.disk = w.disk ∧
      w' = ({ u with disk := w'.disk, host := u.host.forget m.id } : World χ).take
        (w.ownFolder m.id, m)
  /-- If none is loaded, all that happens is that the disk changes and the new one is taken up. -/
  fresh : w.host.find? m.id = none →
    w' = ({ w with disk := w'.disk } : World χ).take (w.ownFolder m.id, m)
  listed : w'.host.descriptors.filter (fun shown => shown.id == m.id) = [descriptor]
  path : descriptor.path = w.ownFolder m.id
  manifest : descriptor.manifest = m
  inactive : descriptor.isActive = false
  others : ∀ other, other ≠ m.id → w'.host.find? other = w.host.find? other
  inPlace : w.disk.samePlace source (w.ownFolder m.id) = true → w'.disk = w.disk
  replaced : w.disk.samePlace source (w.ownFolder m.id) = false →
    Disk.Replaced source (w.ownFolder m.id) (place ++ [m.id]) w.disk w'.disk

section Success

variable (hproper : w.disk.Proper) (hslash : '/' ∉ m.id.toList)
  (hmanifest : Manifest.ofFolder w.disk source = .ok m)
  -- The source lies outside of the target, unless it is the target.
  (houtside : w.disk.samePlace source (w.ownFolder m.id) = false →
    Manifest.ofFolder (w.disk.without (place ++ [m.id])) source = .ok m)
  (hroot : (w.disk.without (place ++ [m.id])).Leads
    (Disk.startOf w.host.layout.userExtensions w.disk.here)
    w.host.layout.userExtensions.parts place)
  (hquiet : ∀ e, w.host.find? m.id = some e → e.isActive = true → code.LeavesQuietly m.id)
  (h : (install code source).alone w = some (.ok descriptor, w'))

include hproper hslash hmanifest houtside hroot hquiet h

/-- An installation that succeeds unloads what has the identifier already, changes the disk, and
takes up the extension of the target. -/
theorem install_eq_ok :
    ∃ v : World χ, (unload code m.id).alone w = some (.ok (), v) ∧ Spares m.id w v ∧
      v.host.find? m.id = none ∧
      w' = ({ v with disk := w'.disk } : World χ).take (w.ownFolder m.id, m) ∧
      w'.host.descriptor? m.id = some descriptor ∧
      Manifest.ofFolder w'.disk (w.ownFolder m.id) = .ok m ∧
      if w.disk.samePlace source (w.ownFolder m.id) = true then w'.disk = w.disk
      else Disk.Replaced source (w.ownFolder m.id) (place ++ [m.id]) w.disk w'.disk := by
  have hid := Manifest.isName_id hmanifest hslash
  have hrelative := Path.isAbsolute_of_not_mem hid.no_slash
  have hend := hid.endsInSlash_join w.host.layout.userExtensions
  have hparts : (w.ownFolder m.id).parts = w.host.layout.userExtensions.parts ++ [m.id] := by
    rw [Path.parts_join hrelative, hid.parts]
  have hstart : Disk.startOf (w.ownFolder m.id) w.disk.here =
      Disk.startOf w.host.layout.userExtensions w.disk.here := by
    simp only [Disk.startOf, Path.isAbsolute_join hrelative]
  rw [← hstart] at hroot
  simp only [install, Flow.bind_eq, Flow.alone_read_bind, hmanifest] at h
  obtain ⟨unloaded, v, hunload, h⟩ := Flow.alone_bind_eq_some h
  obtain ⟨rfl, hspares, hgone⟩ := unload_alone hquiet hunload
  simp only [Flow.alone_pause_bind, Flow.alone_read_bind, hspares.disk] at h
  refine ⟨v, hunload, hspares, hgone, ?_⟩
  split at h
  next hsame =>
    obtain ⟨own, hown, htake⟩ := load_eq_ok h
    obtain rfl := Manifest.ofFolder_of_samePlace hsame hmanifest (hspares.disk ▸ hown)
    obtain ⟨rfl, hshown⟩ := htake hgone
    exact ⟨rfl, hshown, hown, (if_pos hsame).mpr hspares.disk⟩
  next hnot =>
    obtain ⟨replaced, v', hreplace, h⟩ := Flow.alone_bind_eq_some h
    cases replaced with
    | error fault => cases h
    | ok _ =>
        obtain ⟨hv', d₁, hcleared, hcopy⟩ :=
          replaceTree_eq_ok (hspares.disk ▸ hroot) hparts hid hend hreplace
        rw [hspares.disk] at hcleared
        obtain ⟨own, hown, htake⟩ := load_eq_ok h
        have hfound := Manifest.exists_locate (Path.text_ne_empty_of_parts (by simp [hparts])) hend
          hown
        have hreplaced := hcleared.replaced hproper hroot hparts hid hcopy hfound
        obtain rfl := hreplaced.manifest (by simp) (houtside (by simpa using hnot)) hown
        have hnone : v'.host.find? own.id = none := by
          rw [hv']
          exact hgone
        obtain ⟨rfl, hshown⟩ := htake hnone
        exact ⟨congrArg (fun u => World.take u _) hv', hshown, hown, (if_neg hnot).mpr hreplaced⟩

/-- An installation that succeeds replaces whatever was installed under the identifier, if the
user's root leads to its place while the target is away. -/
theorem install_replaces : w.Replacement code source place m descriptor w' := by
  obtain ⟨v, hunload, hspares, hgone, hw', hshown, -, hdisk⟩ :=
    install_eq_ok hproper hslash hmanifest houtside hroot hquiet h
  have hhost : w'.host = v.host.add m.id (w.ownFolder m.id) m := congrArg World.host hw'
  rw [hhost] at hshown
  have hdescriptor :=
    Option.some.inj (hshown.symm.trans (v.host.descriptor?_add m.id (w.ownFolder m.id) m))
  refine
    { deactivated := fun e hfind => ?_
      fresh := fun hnone => ?_
      listed := hhost ▸ Host.filter_descriptors_add hgone hshown
      path := congrArg Descriptor.path hdescriptor
      manifest := congrArg Descriptor.manifest hdescriptor
      inactive := congrArg Descriptor.isActive hdescriptor
      others := fun other hother => ?_
      inPlace := fun hsame => (if_pos hsame).mp hdisk
      replaced := fun hnot => (if_neg (by simp [hnot])).mp hdisk }
  · obtain ⟨hnone, -⟩ | ⟨-, u, -, hdeactivate, rfl⟩ := unload_eq_ok hunload
    · rw [hfind] at hnone
      cases hnone
    · exact ⟨u, hdeactivate, hspares.disk, hw'⟩
  · obtain ⟨-, rfl⟩ | ⟨e, u, hfind, -⟩ := unload_eq_ok hunload
    · exact hw'
    · rw [hnone] at hfind
      cases hfind
  · rw [hhost, Host.find?_add, if_neg hother, hspares.others other hother]

end Success

end World

/-! ## A newer version of an extension -/

/-- The manifests of two versions of an extension. -/
def olderText : String :=
  "\x7b\"publisher\":\"p\",\"name\":\"a\",\"version\":\"1.0.0\"\x7d"

def newerText : String :=
  "\x7b\"publisher\":\"p\",\"name\":\"a\",\"version\":\"2.0.0\"\x7d"

/-- A disk with the older one in a data directory, and the newer one elsewhere.  The older one has a
file that the newer one does not have. -/
def upgradeDisk : Disk where
  root := .folder [
    ("data", .folder [("extensions", .folder [("p.a", .folder [
      ("old.txt", .file (.text "old")), ("package.json", .file (.text olderText))])])]),
    ("ext", .folder [("a", .folder [("package.json", .file (.text newerText))])])]

/-- A host on this disk, whose data directory has a path, with the older one loaded and active. -/
def upgradeWorld (dataDir : Path) : World Unit where
  disk := upgradeDisk
  api := {}
  host := { Host.ofDisk upgradeDisk (.ofDataDir dataDir) with
    extensions := [("p.a", {
      path := ⟨"/data/extensions/p.a"⟩
      manifest := { publisher := "p", name := "a", version := "1.0.0" }
      isBuiltin := false
      isActive := true
      queue := 0 })]
    queues := [[]] }
  client := { settings := ⟨30000, []⟩ }
  own := ()

theorem proper_upgradeDisk : upgradeDisk.Proper := by
  have holder : (Node.file (.text olderText)).Proper := .file _
  have hnewer : (Node.file (.text newerText)).Proper := .file _
  have hfile : (Node.file (.text "old")).Proper := .file _
  simp only [Disk.Proper, upgradeDisk, Node.proper_folder_iff, holder, hnewer, hfile, Table.Sorted,
    Table.keys, List.forall_mem_cons, List.not_mem_nil, false_imp_iff, implies_true, and_true,
    List.map_cons, List.map_nil]
  decide

/-- The newer one replaces the older one. -/
theorem install_replaces_older : ∃ (descriptor : Descriptor) (after : World Unit),
    (World.install Code.idle ⟨"/ext/a"⟩).alone (upgradeWorld ⟨"/data"⟩) =
        some (.ok descriptor, after) ∧
      (upgradeWorld ⟨"/data"⟩).Replacement Code.idle ⟨"/ext/a"⟩ ["data", "extensions"]
        { publisher := "p", name := "a", version := "2.0.0" } descriptor after := by
  have hrun : ((World.install Code.idle ⟨"/ext/a"⟩).alone (upgradeWorld ⟨"/data"⟩)).map
      (fun r => r.1.isOk) = some true := by
    decide +kernel
  obtain ⟨⟨result, after⟩, hinstall, hresult⟩ := Option.map_eq_some_iff.mp hrun
  have hparse : Manifest.parse newerText =
      .ok { publisher := "p", name := "a", version := "2.0.0" } := by cbv
  have hroot : (upgradeWorld ⟨"/data"⟩).host.layout.userExtensions.Plain ["data", "extensions"] :=
    ⟨by decide, by decide, by decide⟩
  have hfolder : (upgradeDisk.without ["data", "extensions", "p.a"]).faceAt ["data", "extensions"] =
      some .folder := by decide
  cases result with
  | error fault => cases hresult
  | ok descriptor =>
      refine ⟨descriptor, after, hinstall, World.install_replaces proper_upgradeDisk (by decide) ?_
        (fun _ => ?_) ?_ (fun _ _ _ => Code.leavesQuietly_idle _) hinstall⟩
      · exact Manifest.ofFolder_eq_of_readText (by decide +kernel) hparse
      · exact Manifest.ofFolder_eq_of_readText (by decide +kernel) hparse
      · exact (Disk.straight_of_folder hfolder).leads_plain hroot

/-- What comes of the installation: whether it succeeds, and what is behind it of the older one's
file, of the newer one's manifest, and of what the newer one has under the name of the file. -/
def upgrade (dataDir : Path) : Option (Bool × List (Option Face)) := do
  let (installed, w) ← (World.install Code.idle ⟨"/ext/a"⟩).alone (upgradeWorld dataDir)
  return (installed.isOk, [
    w.disk.faceAt ["data", "extensions", "p.a", "old.txt"],
    w.disk.faceAt ["data", "extensions", "p.a", "package.json"],
    w.disk.faceAt ["ext", "a", "old.txt"]])

/-- If the path of the data directory leads through a folder that is missing, and back, the older
one is not found, and its file stays in the newer one. -/
theorem install_keeps_old : upgrade ⟨"/x/../data"⟩ =
    some (true, [some (.file (.text "old")), some (.file (.text newerText)), none]) := by
  decide +kernel

end EditorHost
