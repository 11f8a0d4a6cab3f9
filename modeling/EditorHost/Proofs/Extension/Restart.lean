import EditorHost.Proofs.Extension.Succeeding

/-!
# A host that is started again

A host knows what is installed from its discovery, and keeps account of what it installs and
uninstalls since.  A host that is started again looks at the disk.  For an identifier that belongs
to the folder of its name the two agree (`restart_agrees`).

Where a package stands in another folder than the one of its name they need not.  An installation
puts a second package with the identifier beside it, and whichever folder comes first is found.

## Contents

* `Host.Lists`: an extension below the user's root, and `Layout.Stands`: where that root is.
* `Layout.Stands.lists_discovered`: what a host lists that has been started.
* `Agrees`: what the host lists is what is offered on the disk, kept by every call that succeeds.
* `restart_agrees`, and a package in a folder of another name.
-/

namespace EditorHost

open Disk (Confined)
open Discovery (Offers Neat)
open EditorHost.Path (IsName)

variable {χ : Type} {code : Code χ} {w w' : World χ} {d : Disk} {user : List String}
  {id : String} {p : Path} {m : Manifest}

/-! ## What a host lists -/

/-- A host lists an extension that lies below the user's root. -/
def Host.Lists (h : Host) (id : String) (p : Path) (m : Manifest) : Prop :=
  h.source? id = some (p, m) ∧ p.startsWith h.layout.userExtensions = true

/-- A host that has been started lists what it finds first. -/
theorem Host.lists_discovered {l : Layout} : ((ofDisk d l).discovered d).Lists id p m ↔
    (Discovery.packages d l.userExtensions ++
      Discovery.packages d l.bundledExtensions).findSome? (Manifest.offered d id) = some (p, m) ∧
        p.startsWith l.userExtensions = true := by
  have hlayout : (ofDisk d l).layout = l := rfl
  have hnone : (ofDisk d l).source? id = none := rfl
  rw [Lists, discovered, source?_foldl_loaded, layout_foldl_loaded, hlayout, hnone, Option.none_or]

/-- Where the user's root is and the file of the disabled extensions: neither lies in the other,
and the root and the one of the bundled extensions do not either. -/
structure Layout.Stands (l : Layout) (user disabled : List String) : Prop where
  root : l.userExtensions.Plain user
  slash : l.userExtensions.endsInSlash = false
  ne : user ≠ []
  file : l.disabledFile.Plain disabled
  beside : ¬ user <+: disabled ∧ ¬ disabled <+: user
  apart : l.userExtensions.startsWith l.bundledExtensions = false ∧
    l.bundledExtensions.startsWith l.userExtensions = false

namespace Layout.Stands

variable {l : Layout} {disabled : List String} (hl : l.Stands user disabled)

include hl

/-- What lies below one root does not lie below the other. -/
theorem startsWith_user (h : p.startsWith l.bundledExtensions = true) :
    p.startsWith l.userExtensions = false := by
  rw [Bool.eq_false_iff]
  intro huser
  rw [Path.startsWith, List.isPrefixOf_iff_prefix] at h huser
  rcases List.prefix_or_prefix_of_prefix h huser with hway | hway
  · have hnot := hl.apart.1
    rw [Path.startsWith, List.isPrefixOf_iff_prefix.mpr hway] at hnot
    cases hnot
  · have hnot := hl.apart.2
    rw [Path.startsWith, List.isPrefixOf_iff_prefix.mpr hway] at hnot
    cases hnot

/-- What a host that has been started lists is offered below the user's root. -/
theorem offers_of_lists (ho : d.Orderly user)
    (h : ((Host.ofDisk d l).discovered d).Lists id p m) : ∃ names,
      Offers d l.userExtensions user names m ∧ m.id = id ∧ p = l.userExtensions.descend names := by
  obtain ⟨hsource, huser⟩ := Host.lists_discovered.mp h
  obtain ⟨path, hpath, hoffered⟩ := List.exists_of_findSome?_eq_some hsource
  obtain ⟨rfl, hmanifest, hid⟩ := Manifest.offered_eq_some.mp hoffered
  rcases List.mem_append.mp hpath with hpath | hpath
  · obtain ⟨names, hfound, rfl⟩ :=
      (Discovery.mem_packages ho.proper hl.root hl.slash ho.straight).mp hpath
    exact ⟨names, ⟨hfound, hmanifest⟩, hid, rfl⟩
  · have hbundled := Discovery.startsWith_of_mem_packages ho.proper hpath
    rw [hl.startsWith_user hbundled] at huser
    cases huser

/-- For an identifier that belongs to the folder of its name, a host that has been started lists
the package there. -/
theorem lists_discovered (ho : d.Orderly user) (hneat : Neat d l.userExtensions user id) :
    ((Host.ofDisk d l).discovered d).Lists id p m ↔
      p = l.userExtensions.join id ∧ Offers d l.userExtensions user [id] m := by
  constructor
  · intro h
    obtain ⟨names, hoffers, hid, rfl⟩ := hl.offers_of_lists ho h
    obtain ⟨rfl, -⟩ := hneat names m hoffers (.inl hid)
    exact ⟨rfl, hoffers⟩
  · rintro ⟨rfl, hoffers⟩
    have hid := (hneat [id] m hoffers (.inr rfl)).2
    have hmem : l.userExtensions.join id ∈ Discovery.packages d l.userExtensions :=
      (Discovery.mem_packages ho.proper hl.root hl.slash ho.straight).mpr
        ⟨[id], hoffers.found, rfl⟩
    have hoffered : Manifest.offered d id (l.userExtensions.join id) =
        some (l.userExtensions.join id, m) :=
      Manifest.offered_eq_some.mpr ⟨rfl, hoffers.manifest, hid⟩
    -- What is found first is the same package.
    have hfirst : (Discovery.packages d l.userExtensions).findSome? (Manifest.offered d id) =
        some (l.userExtensions.join id, m) := by
      cases hfind : (Discovery.packages d l.userExtensions).findSome? (Manifest.offered d id) with
      | none =>
          rw [List.findSome?_eq_none_iff.mp hfind _ hmem] at hoffered
          cases hoffered
      | some found =>
          obtain ⟨path, own⟩ := found
          obtain ⟨other, hother, hown⟩ := List.exists_of_findSome?_eq_some hfind
          obtain ⟨rfl, hmanifest, hsame⟩ := Manifest.offered_eq_some.mp hown
          obtain ⟨names, hfound, rfl⟩ :=
            (Discovery.mem_packages ho.proper hl.root hl.slash ho.straight).mp hother
          obtain ⟨rfl, -⟩ := hneat names own ⟨hfound, hmanifest⟩ (.inl hsame)
          obtain rfl := Except.ok.inj (hmanifest.symm.trans hoffers.manifest)
          rfl
    have huser : (l.userExtensions.descend [id]).startsWith l.userExtensions = true :=
      Path.startsWith_descend (hoffers.found.isName ho.proper)
    rw [Path.descend_cons, Path.descend_nil] at huser
    refine Host.lists_discovered.mpr ⟨?_, huser⟩
    rw [List.findSome?_append, hfirst, Option.some_or]

end Layout.Stands

/-! ## What a host lists is on the disk -/

/-- A host lists below the user's root what is offered there in the folder of an identifier, and
what it lists under others lies elsewhere. -/
structure Agrees (l : Layout) (user disabled : List String) (id : String) (w : World χ) :
    Prop where
  layout : w.host.layout = l
  orderly : w.disk.Orderly user
  file : w.disk.Open disabled
  neat : Neat w.disk l.userExtensions user id
  inactive : w.host.Inactive
  lists : ∀ p m, w.host.Lists id p m ↔
    p = l.userExtensions.join id ∧ Offers w.disk l.userExtensions user [id] m
  others : ∀ other p m, other ≠ id → w.host.Lists other p m → ∃ first rest, first ≠ id ∧
    (∀ name ∈ first :: rest, IsName name) ∧ p = l.userExtensions.descend (first :: rest) ∧
      w.disk.Straight (user ++ first :: rest)

namespace Agrees

open World (Installed Uninstalled)

variable {l : Layout} {disabled : List String}

/-- A discovery makes the two agree. -/
theorem discovered (hl : l.Stands user disabled) (ho : w.disk.Orderly user)
    (hfile : w.disk.Open disabled) (hneat : Neat w.disk l.userExtensions user id)
    (hhost : w.host = (Host.ofDisk w.disk l).discovered w.disk) :
    Agrees l user disabled id w where
  layout := by
    rw [hhost, Host.discovered, Host.layout_foldl_loaded]
    rfl
  orderly := ho
  file := hfile
  neat := hneat
  inactive := by
    rw [hhost]
    exact (Host.inactive_ofDisk _ _).discovered w.disk
  lists p m := by
    rw [hhost]
    exact hl.lists_discovered ho hneat
  others other p m hother hlists := by
    rw [hhost] at hlists
    obtain ⟨names, hoffers, hid, rfl⟩ := hl.offers_of_lists ho hlists
    obtain ⟨first, rest, rfl⟩ := List.exists_cons_of_ne_nil hoffers.found.ne
    refine ⟨first, rest, fun hfirst => hother ?_, hoffers.found.isName ho.proper, rfl,
      Disk.straight_of_folder hoffers.found.folder⟩
    exact hid.symm.trans (hneat _ m hoffers (.inr (congrArg some hfirst))).2

/-- An installation keeps them in agreement. -/
theorem installed (hl : l.Stands user disabled) (h : Agrees l user disabled id w)
    (hname : IsName m.id) (hkept : m.id ≠ Discovery.skippedName) (hi : Installed user m w w') :
    Agrees l user disabled id w' := by
  have hroot := hl.root
  obtain ⟨hlayout, hinactive, hdisk, hpackage, hloaded, hothers⟩ := hi
  rw [h.layout] at hlayout hpackage hloaded
  have ho := hdisk.orderly h.orderly
  have hlists (other : String) (hother : other ≠ m.id) (p : Path) (own : Manifest) :
      w'.host.Lists other p own ↔ w.host.Lists other p own := by
    rw [Host.Lists, Host.Lists, hothers other hother, hlayout, h.layout]
  refine ⟨hlayout, ho, hdisk.isOpen h.file, h.neat.of_package hroot h.orderly ho hdisk hpackage,
    hinactive, fun p own => ?_, fun other p own hother hlisted => ?_⟩
  · by_cases hid : id = m.id
    · subst hid
      have hoffers := Discovery.offers_of_package hroot ho hname hkept hpackage
      rw [Host.Lists, hloaded, hlayout]
      constructor
      · rintro ⟨hsame, -⟩
        cases hsame
        exact ⟨rfl, hoffers⟩
      · rintro ⟨rfl, hown⟩
        obtain ⟨-, rfl⟩ := hown.eq_singleton hpackage
        exact ⟨rfl, Path.startsWith_join (Path.isAbsolute_of_not_mem hname.no_slash) _⟩
    · rw [hlists id hid, h.lists, Discovery.offers_congr hroot h.orderly ho]
      exact hdisk.beside (Ne.symm hid)
  · by_cases hnew : other = m.id
    · subst hnew
      obtain ⟨hsame, -⟩ := hlisted
      rw [hloaded] at hsame
      cases hsame
      exact ⟨m.id, [], hother, List.forall_mem_singleton.mpr hname, rfl, ho.straight_name m.id⟩
    · obtain ⟨first, rest, hfirst, hnames, hp, hstraight⟩ :=
        h.others other p own hother ((hlists other hnew p own).mp hlisted)
      exact ⟨first, rest, hfirst, hnames, hp, hdisk.straight hstraight⟩

section Leaving

variable {gone : String}

/-- They stay in agreement when an extension leaves both the host and the disk. -/
theorem without (h : Agrees l user disabled id w) (hlayout : w'.host.layout = w.host.layout)
    (hgone : w'.host.find? gone = none)
    (hothers : ∀ other, other ≠ gone → w'.host.find? other = w.host.find? other)
    (ho : w'.disk.Orderly user) (hfile : w'.disk.Open disabled)
    (hstraight : ∀ place, w.disk.Straight place → w'.disk.Straight place)
    (hless : ∀ names m, Offers w'.disk l.userExtensions user names m →
      Offers w.disk l.userExtensions user names m)
    (hkept : id ≠ gone → ∀ m, Offers w.disk l.userExtensions user [id] m →
      Offers w'.disk l.userExtensions user [id] m)
    (hremoved : id = gone → ∀ m, ¬ Offers w'.disk l.userExtensions user [id] m) :
    Agrees l user disabled id w' := by
  have hlists (other : String) (hother : other ≠ gone) (p : Path) (m : Manifest) :
      w'.host.Lists other p m ↔ w.host.Lists other p m := by
    rw [Host.Lists, Host.Lists, Host.source?, Host.source?, hothers other hother, hlayout]
  have hnot (p : Path) (m : Manifest) : ¬ w'.host.Lists gone p m := by
    rintro ⟨hsource, -⟩
    rw [Host.source?, hgone] at hsource
    cases hsource
  refine ⟨hlayout.trans h.layout, ho, hfile, h.neat.mono hless, fun other e he => ?_,
    fun p m => ?_, fun other p m hother hlisted => ?_⟩
  · by_cases hother : other = gone
    · rw [hother, hgone] at he
      cases he
    · exact h.inactive other e ((hothers other hother).symm.trans he)
  · by_cases hid : id = gone
    · exact ⟨fun hlisted => absurd (hid ▸ hlisted) (hnot p m),
        fun hoffers => absurd hoffers.2 (hremoved hid m)⟩
    · rw [hlists id hid, h.lists]
      exact and_congr_right fun _ => ⟨hkept hid m, hless [id] m⟩
  · by_cases hleft : other = gone
    · exact absurd (hleft ▸ hlisted) (hnot p m)
    · obtain ⟨first, rest, hfirst, hnames, hp, hway⟩ :=
        h.others other p m hother ((hlists other hleft p m).mp hlisted)
      exact ⟨first, rest, hfirst, hnames, hp, hstraight _ hway⟩

/-- Where an extension lies that a host lists below the user's root. -/
theorem exists_names (h : Agrees l user disabled id w) (ho : w.disk.Orderly user)
    (hlisted : w.host.Lists gone p m) : ∃ first rest, (∀ name ∈ first :: rest, IsName name) ∧
      p = l.userExtensions.descend (first :: rest) ∧ w.disk.Straight (user ++ first :: rest) ∧
        (id = gone → first = id ∧ rest = []) ∧ (id ≠ gone → first ≠ id) := by
  by_cases hid : gone = id
  · subst hid
    obtain ⟨rfl, hoffers⟩ := (h.lists p m).mp hlisted
    exact ⟨gone, [], hoffers.found.isName ho.proper, rfl, ho.straight_name gone,
      fun _ => ⟨rfl, rfl⟩, fun hne => absurd rfl hne⟩
  · obtain ⟨first, rest, hfirst, hnames, hp, hway⟩ := h.others gone p m hid hlisted
    exact ⟨first, rest, hnames, hp, hway, fun heq => absurd heq.symm hid, fun _ => hfirst⟩

/-- Uninstalling an extension keeps them in agreement. -/
theorem uninstalled (hl : l.Stands user disabled) (h : Agrees l user disabled id w)
    (hu : Uninstalled disabled gone w w') : Agrees l user disabled id w' := by
  obtain ⟨hlayout, hgone, hothers, e, d, hfind, hfile, hdisk⟩ := hu
  rw [h.layout] at hdisk
  have hroot := hl.root
  have hod := hfile.orderly h.orderly
  -- The file of the disabled extensions is not below the root.
  have hoffers (names : List String) (m : Manifest) :
      Offers d l.userExtensions user names m ↔ Offers w.disk l.userExtensions user names m := by
    cases names with
    | nil => exact ⟨fun h => absurd rfl h.found.ne, fun h => absurd rfl h.found.ne⟩
    | cons first rest =>
        exact Discovery.offers_congr hroot h.orderly hod
          (hfile.aside hl.beside.2 hl.beside.1 first)
  have hsource : w.host.source? gone = some (e.path, e.manifest) := by rw [Host.source?, hfind]; rfl
  split at hdisk
  next hbelow =>
    obtain ⟨first, rest, hnames, hp, hway, hown, hother⟩ :=
      h.exists_names h.orderly ⟨hsource, by rw [h.layout]; exact hbelow⟩
    have hplain : e.path.Plain (user ++ first :: rest) := hp ▸ hroot.descend hnames
    have hslash : e.path.endsInSlash = false :=
      hp ▸ Path.endsInSlash_descend (List.cons_ne_nil _ _) hnames
    have hstraight := hfile.straight hway
    have hfolder := Disk.faceAt_of_removeTree hplain hslash hstraight hdisk
    rcases Disk.removeTree_plain hplain (by simp) hslash hstraight with
      ⟨error, herror⟩ | ⟨hconfined, hbare⟩
    · rw [herror] at hdisk
      cases hdisk
    rw [hdisk] at hconfined hbare
    have ho := hconfined.orderly hod
    refine h.without hlayout hgone hothers ho (hconfined.isOpen (hfile.isOpen h.file))
      (fun place hplace => hconfined.straight (hfile.straight hplace))
      (fun names m hoffered => (hoffers names m).mp
        (hoffered.of_removed hroot hod ho hconfined hbare hfolder))
      (fun hid m hoffered => ?_) fun hid m hoffered => ?_
    · exact ((hoffers [id] m).mpr hoffered).congr hroot hod ho (hconfined.beside (hother hid))
    · obtain ⟨rfl, rfl⟩ := hown hid
      exact Discovery.not_offers_of_bare hroot ho hbare hoffered
  next hbelow =>
    subst hdisk
    refine h.without hlayout hgone hothers hod (hfile.isOpen h.file)
      (fun place hplace => hfile.straight hplace) (fun names m => (hoffers names m).mp)
      (fun _ m => (hoffers [id] m).mpr) fun hid m hoffered => ?_
    -- What is offered is listed, and so would have been removed.
    obtain ⟨hlisted, hstarts⟩ := (h.lists _ m).mpr ⟨rfl, (hoffers [id] m).mp hoffered⟩
    rw [hid, hsource] at hlisted
    obtain ⟨hpath, -⟩ := Prod.mk.inj (Option.some.inj hlisted)
    rw [h.layout, hid, ← hpath] at hstarts
    exact hbelow hstarts

end Leaving

end Agrees

/-! ## Restarting -/

/-- In a data directory the user's root and the file of the disabled extensions stand beside each
other. -/
theorem Layout.stands_ofDataDir {dataDir bundled : Path} {base : List String}
    (h : dataDir.Plain base)
    (hapart : (dataDir.join "extensions").startsWith bundled = false ∧
      bundled.startsWith (dataDir.join "extensions") = false) :
    ((Layout.ofDataDir dataDir).withBundled bundled).Stands (base ++ ["extensions"])
      (base ++ ["disabled-extensions.json"]) := by
  have hextensions : IsName "extensions" := by decide
  have hfile : IsName "disabled-extensions.json" := by decide
  have hne : "extensions" ≠ "disabled-extensions.json" := by decide
  exact {
    root := h.join_name hextensions
    slash := hextensions.endsInSlash_join dataDir
    ne := by simp
    file := h.join_name hfile
    beside := ⟨Disk.not_prefix_of_ne hne [] [], Disk.not_prefix_of_ne hne.symm [] []⟩
    apart := hapart }

theorem Manifest.id_ne_skippedName (m : Manifest) : m.id ≠ Discovery.skippedName := by
  intro h
  have hdot : '.' ∈ m.id.toList := by simp [Manifest.id_eq]
  rw [h] at hdot
  exact absurd hdot (by decide)

/-- Extensions are installed and uninstalled one after the other, and every call succeeds.  What is
installed has an identifier without slashes, and comes from outside of the user's root: its manifest
can be read while the root is away. -/
inductive Managed (code : Code χ) (user : List String) : World χ → World χ → Prop where
  | refl (w : World χ) : Managed code user w w
  | install {w w₁ w₂ : World χ} {source : Path} {m : Manifest} {descriptor : Descriptor}
      (h : Managed code user w w₁) (hslash : '/' ∉ m.id.toList)
      (hsource : Manifest.ofFolder (w₁.disk.without user) source = .ok m)
      (hrun : (World.install code source).alone w₁ = some (.ok descriptor, w₂)) :
      Managed code user w w₂
  | uninstall {w w₁ w₂ : World χ} {id : String} (h : Managed code user w w₁)
      (hrun : (World.uninstall code id).alone w₁ = some (.ok (), w₂)) : Managed code user w w₂

/-- Calls that succeed keep the host and the disk in agreement. -/
theorem Agrees.managed {l : Layout} {disabled : List String} (hl : l.Stands user disabled)
    (h : Agrees l user disabled id w) (hmanaged : Managed code user w w') :
    Agrees l user disabled id w' := by
  induction hmanaged with
  | refl => exact h
  | install _ hslash hsource hrun ih =>
      have hroot := hl.root
      rw [← ih.layout] at hroot
      exact ih.installed hl (Manifest.isName_id hsource hslash) (Manifest.id_ne_skippedName _)
        (World.install_alone hroot hl.ne ih.orderly ih.inactive hsource hslash hrun)
  | uninstall _ hrun ih =>
      have hfile := hl.file
      rw [← ih.layout] at hfile
      exact ih.uninstalled hl
        (World.uninstall_alone hfile ih.orderly.proper ih.file ih.inactive hrun)

/-! ## Installing a version anew -/

/-- The manifest of the first version of an extension. -/
def firstText : String := "\x7b\"publisher\":\"p\",\"name\":\"a\",\"version\":\"1.0.0\"\x7d"

/-- The manifest of the second version. -/
def secondText : String := "\x7b\"publisher\":\"p\",\"name\":\"a\",\"version\":\"2.0.0\"\x7d"

/-- A disk on which the first version of the extension is installed in a folder, and the second one
lies outside. -/
def versionsDisk (name : String) : Disk where
  root := .folder [
    ("data", .folder [("extensions", .folder [
      (name, .folder [("package.json", .file (.text firstText))])])]),
    ("ext", .folder [("package.json", .file (.text secondText))])]

/-- A host that is started on a disk. -/
def startedWorld (disk : Disk) : World Unit where
  disk
  api := {}
  host := .ofDisk disk (.ofDataDir ⟨"/data"⟩)
  client := { settings := ⟨30000, []⟩ }
  own := ()

/-- The layout, and where it stands. -/
def dataLayout : Layout := .ofDataDir ⟨"/data"⟩

theorem stands_dataLayout : dataLayout.Stands ["data", "extensions"]
    ["data", "disabled-extensions.json"] :=
  @Layout.stands_ofDataDir ⟨"/data"⟩ ⟨"/data/bundled-extensions"⟩ ["data"]
    ⟨by decide, by decide, by decide⟩ (by decide)

theorem linkless_versionsDisk (name : String) : (versionsDisk name).root.Linkless := by
  have hfile (text : String) : (Node.file (.text text)).Linkless := .file _
  simp [versionsDisk, Node.linkless_folder_iff, hfile]

theorem orderly_versionsDisk : (versionsDisk "p.a").Orderly ["data", "extensions"] where
  proper := by
    have hfile (text : String) : (Node.file (.text text)).Proper := .file _
    simp only [Disk.Proper, versionsDisk, Node.proper_folder_iff, hfile, Table.Sorted, Table.keys,
      List.forall_mem_cons, List.not_mem_nil, false_imp_iff, implies_true, and_true, List.map_cons,
      List.map_nil]
    decide
  straight other _ target := (linkless_versionsDisk _).faceAt_ne_link other target
  settled rest name target hlink :=
    absurd hlink ((linkless_versionsDisk _).faceAt_ne_link _ target)

/-- The manifest of a version of the extension. -/
def versionManifest (version : String) : Manifest := { publisher := "p", name := "a", version }

theorem neat_versionsDisk : Neat (versionsDisk "p.a") dataLayout.userExtensions
    ["data", "extensions"] "p.a" := by
  intro names m h _
  obtain ⟨first, rest, rfl⟩ := List.exists_cons_of_ne_nil h.found.ne
  have hfolder := h.found.folder
  have hnames : first = "p.a" ∧ rest = [] := by
    simp [Disk.faceAt, versionsDisk, Node.faceAt_cons, Table.find?] at hfolder
    split at hfolder
    next hfirst =>
      refine ⟨hfirst.symm, ?_⟩
      cases rest with
      | nil => rfl
      | cons next more =>
          rw [Option.bind_some, Node.faceAt_cons, Table.find?] at hfolder
          split at hfolder
          · cases more <;> cases hfolder
          · cases hfolder
    · cases hfolder
  obtain ⟨rfl, rfl⟩ := hnames
  refine ⟨rfl, ?_⟩
  have hparse : Manifest.parse firstText = .ok (versionManifest "1.0.0") := by cbv
  have hmanifest : Manifest.ofFolder (versionsDisk "p.a") (dataLayout.userExtensions.join "p.a") =
      .ok (versionManifest "1.0.0") :=
    Manifest.ofFolder_eq_of_readText (by decide +kernel) hparse
  have hown := h.manifest
  rw [Path.descend_cons, Path.descend_nil, hmanifest] at hown
  obtain rfl := Except.ok.inj hown
  decide

/-- A host that has discovered what there is, and then installed and uninstalled extensions, lists
below the user's root what a host lists that is started again on the same disk, for every identifier
that belonged to the folder of its name in the beginning.  What lies below the root of the bundled
extensions does not matter, nor what the code of the extensions would do. -/
theorem restart_agrees {l : Layout} {disabled ids : List String} {start before after again : World χ}
    (hl : l.Stands user disabled) (hstart : start.host = .ofDisk start.disk l)
    (ho : start.disk.Orderly user) (hfile : start.disk.Open disabled)
    (hneat : Neat start.disk l.userExtensions user id)
    (hdiscover : World.discover.alone start = some (ids, before))
    (hmanaged : Managed code user before after) (hdisk : again.disk = after.disk)
    (hagain : again.host = .ofDisk after.disk l) :
    ∃ found restarted, World.discover.alone again = some (found, restarted) ∧
      ∀ p m, after.host.Lists id p m ↔ restarted.host.Lists id p m := by
  obtain ⟨_, first, hfirst, hsame, hhost⟩ := World.discover_alone start
  obtain ⟨-, rfl⟩ := Prod.mk.inj (Option.some.inj (hfirst.symm.trans hdiscover))
  have hbefore : Agrees l user disabled id first := by
    rw [← hsame] at ho hfile hneat hstart hhost
    exact .discovered hl ho hfile hneat (hstart ▸ hhost)
  have hafter := hbefore.managed hl hmanaged
  obtain ⟨found, restarted, hrestart, -, hrestarted⟩ := World.discover_alone again
  rw [hagain, hdisk] at hrestarted
  refine ⟨found, restarted, hrestart, fun p m => ?_⟩
  rw [hafter.lists, hrestarted, hl.lists_discovered hafter.orderly hafter.neat]

/-- The second version is installed over the first one in the folder of its name, and found there
when the host is started again. -/
theorem restart_agrees_versions : ∃ (ids found : List String)
    (before after restarted : World Unit),
    World.discover.alone (startedWorld (versionsDisk "p.a")) = some (ids, before) ∧
      Managed Code.idle ["data", "extensions"] before after ∧
      after.host.Lists "p.a" ⟨"/data/extensions/p.a"⟩ (versionManifest "2.0.0") ∧
      World.discover.alone (startedWorld after.disk) = some (found, restarted) ∧
      ∀ p m, after.host.Lists "p.a" p m ↔ restarted.host.Lists "p.a" p m := by
  have hrun : ((World.discover.alone (startedWorld (versionsDisk "p.a"))).bind fun r =>
      ((World.install Code.idle ⟨"/ext"⟩).alone r.2).map fun r' => r'.1.isOk) = some true := by
    decide +kernel
  obtain ⟨ids, before, hdiscover, hdisk, hhost⟩ :=
    World.discover_alone (startedWorld (versionsDisk "p.a"))
  rw [hdiscover] at hrun
  obtain ⟨⟨result, after⟩, hinstall, hsucceeds⟩ := Option.map_eq_some_iff.mp hrun
  cases result with
  | error fault => cases hsucceeds
  | ok descriptor =>
      have hparse : Manifest.parse secondText = .ok (versionManifest "2.0.0") := by cbv
      have hsource : Manifest.ofFolder (before.disk.without ["data", "extensions"]) ⟨"/ext"⟩ =
          .ok (versionManifest "2.0.0") := by
        rw [hdisk]
        exact Manifest.ofFolder_eq_of_readText (by decide +kernel) hparse
      have hmanaged : Managed Code.idle ["data", "extensions"] before after :=
        .install (.refl before) (by decide) hsource hinstall
      have hstart : (startedWorld (versionsDisk "p.a")).host =
          .ofDisk (versionsDisk "p.a") dataLayout := rfl
      have hsame : (startedWorld after.disk).disk = after.disk := rfl
      have hagain : (startedWorld after.disk).host = .ofDisk after.disk dataLayout := rfl
      have hopen : (versionsDisk "p.a").Open ["data", "disabled-extensions.json"] :=
        fun other _ target => (linkless_versionsDisk "p.a").faceAt_ne_link other target
      obtain ⟨found, restarted, hrestart, hagree⟩ := restart_agrees stands_dataLayout hstart
        orderly_versionsDisk hopen neat_versionsDisk hdiscover hmanaged hsame hagain
      refine ⟨ids, found, before, after, restarted, hdiscover, hmanaged, ?_, hrestart, hagree⟩
      have hlayout : before.host.layout = dataLayout := by
        rw [hhost, Host.discovered, Host.layout_foldl_loaded]
        rfl
      have hinactive : before.host.Inactive := hhost ▸ (Host.inactive_ofDisk _ _).discovered _
      have hinstalled := World.install_alone (hlayout ▸ stands_dataLayout.root) (by simp)
        (hdisk ▸ orderly_versionsDisk) hinactive hsource (by decide) hinstall
      have hloaded := hinstalled.loaded
      rw [hlayout] at hloaded
      refine ⟨hloaded, ?_⟩
      rw [hinstalled.layout, hlayout]
      decide

/-! ## A package in a folder of another name -/

/-- The folder and the version of the extension that a host lists. -/
def World.listed (w : World Unit) : Option (String × String) :=
  (w.host.source? "p.a").map fun (path, m) => (path.text, m.version)

/-- Whether the second version can be installed, what the host lists then, and what it lists when it
is started again. -/
def reinstall (name : String) : Option (Bool × List (Option (String × String))) := do
  let (_, w) ← World.discover.alone (startedWorld (versionsDisk name))
  let (result, w') ← (World.install Code.idle ⟨"/ext"⟩).alone w
  let (_, again) ← World.discover.alone (startedWorld w'.disk)
  return (result.isOk, [w'.listed, again.listed])

/-- The folder of the first version comes first, and is found when the host is started again. -/
theorem restart_lists_other : reinstall "aaa" = some (true,
    [some ("/data/extensions/p.a", "2.0.0"), some ("/data/extensions/aaa", "1.0.0")]) := by
  decide +kernel

end EditorHost
