import EditorHost.Proofs.Extension.Restart
import EditorHost.Proofs.Extension.Walking

/-!
# Copies that shadow others

There may be any number of copies of an extension below the two roots.  A discovery takes the first
one, in the order of a walk and the user's root before the bundled ones, and passes the others over:
what is listed, whether it counts as bundled, and which defaults are filled in all follow the copy
that was taken (`World.discover_fresh`).  Once all identifiers are there, a discovery does nothing.

## Contents

* `Manifest.firsts`: of some copies, the first of each identifier.
* `World.foldl_loaded`: which of the folders that are found are taken.
* `World.Discovered`: what a discovery leaves.
-/

namespace EditorHost

variable {χ : Type} {w : World χ}

/-! ## Several folders -/

namespace Manifest

theorem sublist_ofFolders (disk : Disk) (paths : List Path) :
    ((ofFolders disk paths).map Prod.fst).Sublist paths := by
  induction paths with
  | nil => exact .slnil
  | cons path rest ih =>
      rw [ofFolders_cons]
      cases ofFolder disk path with
      | error e => exact ih.cons path
      | ok m => exact ih.cons_cons path

/-- Where all folders have a readable manifest, each gives its identifier. -/
theorem forall₂_ofFolders {disk : Disk} {paths : List Path}
    (h : ∀ path ∈ paths, ∃ m, ofFolder disk path = .ok m) :
    List.Forall₂ (fun path id => ∃ m, ofFolder disk path = .ok m ∧ m.id = id) paths
      ((ofFolders disk paths).map fun copy => copy.2.id) := by
  induction paths with
  | nil => exact .nil
  | cons path rest ih =>
      obtain ⟨⟨m, hm⟩, hrest⟩ := List.forall_mem_cons.mp h
      rw [ofFolders_cons, hm]
      exact .cons ⟨m, hm, rfl⟩ (ih hrest)

/-- The first copy of each identifier. -/
def firsts (copies : List (Path × Manifest)) : List (Path × Manifest) :=
  copies.eraseDupsBy fun copy other => copy.2.id == other.2.id

theorem firsts_cons (copy : Path × Manifest) (copies : List (Path × Manifest)) :
    firsts (copy :: copies) =
      copy :: firsts (copies.filter fun other => !(other.2.id == copy.2.id)) := by
  rw [firsts, List.eraseDupsBy_cons]
  refine congrArg (fun rest => copy :: firsts rest) (List.filter_congr fun other _ => ?_)
  cases other.2.id == copy.2.id <;> rfl

/-- What holds of no copies, and of more when it holds of those of other identifiers, holds. -/
theorem firsts_induction {P : List (Path × Manifest) → Prop} (hnil : P [])
    (hcons : ∀ copy copies, P (copies.filter fun other => !(other.2.id == copy.2.id)) →
      P (copy :: copies)) (copies : List (Path × Manifest)) : P copies := by
  induction hlength : copies.length using Nat.strong_induction_on generalizing copies with
  | h n ih =>
      cases copies with
      | nil => exact hnil
      | cons copy rest =>
          have hshort : (rest.filter fun other => !(other.2.id == copy.2.id)).length < n :=
            (List.length_filter_le _ _).trans_lt (hlength ▸ Nat.lt_succ_self _)
          exact hcons copy rest (ih _ hshort _ rfl)

theorem mem_ofFolders {disk : Disk} {paths : List Path} {path : Path} {m : Manifest} :
    (path, m) ∈ ofFolders disk paths ↔ path ∈ paths ∧ ofFolder disk path = .ok m := by
  rw [ofFolders, List.mem_filterMap]
  constructor
  · rintro ⟨other, hmem, hcopy⟩
    cases hown : ofFolder disk other with
    | error e => simp [hown, Except.toOption] at hcopy
    | ok own =>
        simp only [hown, Except.toOption, Option.map_some, Option.some.injEq,
          Prod.mk.injEq] at hcopy
        obtain ⟨rfl, rfl⟩ := hcopy
        exact ⟨hmem, hown⟩
  · rintro ⟨hmem, hm⟩
    exact ⟨path, hmem, by rw [hm]; rfl⟩

/-- The first copy of an identifier, looked up in two ways. -/
theorem find?_ofFolders (disk : Disk) (paths : List Path) (id : String) :
    (ofFolders disk paths).find? (fun copy => copy.2.id == id) =
      paths.findSome? (offered disk id) := by
  induction paths with
  | nil => rfl
  | cons path rest ih =>
      rw [List.findSome?_cons, ← ih, ofFolders_cons, offered]
      cases ofFolder disk path with
      | error e => rfl
      | ok m => by_cases hid : m.id = id <;> simp [hid]

/-- The first copy of an identifier is taken. -/
theorem find?_firsts (copies : List (Path × Manifest)) (id : String) :
    (firsts copies).find? (fun copy => copy.2.id == id) =
      copies.find? fun copy => copy.2.id == id := by
  induction copies using firsts_induction with
  | hnil => rfl
  | hcons copy copies ih =>
      rw [firsts_cons, List.find?_cons, List.find?_cons]
      cases hid : copy.2.id == id with
      | true => rfl
      | false =>
          refine ih.trans ?_
          rw [List.find?_filter]
          refine congrArg (fun test => copies.find? test) (funext fun other => ?_)
          cases hother : other.2.id == id with
          | false => simp
          | true =>
              have hne : other.2.id ≠ copy.2.id := by
                rw [beq_iff_eq.mp hother]
                exact fun heq => by simp [heq] at hid
              simp [hne]

theorem sublist_firsts (copies : List (Path × Manifest)) : (firsts copies).Sublist copies := by
  induction copies using firsts_induction with
  | hnil => exact .slnil
  | hcons copy copies ih =>
      rw [firsts_cons]
      exact (ih.trans List.filter_sublist).cons_cons copy

/-- No identifier is taken twice. -/
theorem nodup_firsts (copies : List (Path × Manifest)) :
    ((firsts copies).map fun copy => copy.2.id).Nodup := by
  induction copies using firsts_induction with
  | hnil => exact .nil
  | hcons copy copies ih =>
      rw [firsts_cons, List.map_cons, List.nodup_cons]
      refine ⟨fun hmem => ?_, ih⟩
      obtain ⟨other, hother, hid⟩ := List.mem_map.mp hmem
      have hkept := (List.mem_filter.mp ((sublist_firsts _).subset hother)).2
      simp [hid] at hkept

/-- What is taken is the first copy of its identifier. -/
theorem mem_firsts {copies : List (Path × Manifest)} {copy : Path × Manifest} :
    copy ∈ firsts copies ↔ copies.find? (fun other => other.2.id == copy.2.id) = some copy := by
  rw [← find?_firsts]
  constructor
  · intro hmem
    obtain ⟨other, hother⟩ := Option.isSome_iff_exists.mp
      (List.find?_isSome (p := fun other => other.2.id == copy.2.id) |>.mpr
        ⟨copy, hmem, beq_self_eq_true copy.2.id⟩)
    have hid : other.2.id = copy.2.id := by simpa using List.find?_some hother
    rw [hother, List.inj_on_of_nodup_map (nodup_firsts copies) (List.mem_of_find?_eq_some hother)
      hmem hid]
  · exact List.mem_of_find?_eq_some

end Manifest

namespace World

/-- Of the copies whose identifiers are not there yet, the first ones are taken. -/
theorem foldl_loaded (w : World χ) (paths : List Path) : paths.foldl loaded w =
    (Manifest.firsts ((Manifest.ofFolders w.disk paths).filter fun copy =>
      (w.host.find? copy.2.id).isNone)).foldl take w := by
  induction paths generalizing w with
  | nil => rfl
  | cons path rest ih =>
      rw [List.foldl_cons, ih, disk_loaded, Manifest.ofFolders_cons, loaded]
      cases Manifest.ofFolder w.disk path with
      | error e => rfl
      | ok m =>
          cases hfind : w.host.find? m.id with
          | some e => simp [hfind]
          | none =>
              simp only [hfind, Option.isSome_none, List.filter_cons, Option.isNone_none, if_true,
                Manifest.firsts_cons, List.foldl_cons, Bool.false_eq_true, if_false,
                List.filter_filter]
              refine congrArg (fun copies => (Manifest.firsts copies).foldl take (w.take (path, m)))
                (List.filter_congr fun copy _ => ?_)
              have hfinds : (w.take (path, m)).host.find? copy.2.id = _ :=
                Host.find?_add w.host m.id copy.2.id path m
              rw [hfinds]
              by_cases hid : copy.2.id = m.id
              · simp [hid]
              · simp [hid]

/-- What taking some copies makes of a world. -/
theorem foldl_take (w : World χ) (copies : List (Path × Manifest)) :
    copies.foldl take w = { w with
      host := copies.foldl (fun h copy => h.add copy.2.id copy.1 copy.2) w.host
      api := copies.foldl (fun api copy => api.seed copy.2.defaults) w.api
      events := w.events ++ copies.map fun _ => .extensionsChanged } := by
  induction copies generalizing w with
  | nil =>
      rw [List.map_nil, List.append_nil]
      rfl
  | cons copy copies ih =>
      rw [List.foldl_cons, ih, List.map_cons, List.foldl_cons, List.foldl_cons]
      simp [take, register]

end World

/-! ## Discovering -/

/-- Every extension is as it was when it was loaded. -/
def Host.Untouched (h : Host) : Prop :=
  ∀ id e, h.find? id = some e → e =
    { path := e.path, manifest := e.manifest,
      isBuiltin := e.path.startsWith h.layout.bundledExtensions, queue := e.queue }

theorem Host.Untouched.add {h : Host} (huntouched : h.Untouched) (id : String) (path : Path)
    (m : Manifest) : (h.add id path m).Untouched := by
  intro other e he
  rw [find?_add] at he
  split at he
  · cases he
    rfl
  · exact huntouched other e he

/-- What a discovery leaves that has found some folders, and has taken some copies. -/
structure World.Discovered (w : World χ) (found : List Path) (taken : List (Path × Manifest))
    (w' : World χ) : Prop where
  /-- Exactly what has been found is listed. -/
  listed : ∀ id, (w'.host.find? id).isSome = true ↔
    ∃ path ∈ found, ∃ m, Manifest.ofFolder w.disk path = .ok m ∧ m.id = id
  /-- The first copy counts. -/
  first : ∀ id e, w'.host.find? id = some e → e.manifest.id = id ∧ ∃ front back,
    found = front ++ e.path :: back ∧ Manifest.ofFolder w.disk e.path = .ok e.manifest ∧
      ∀ path ∈ front, ∀ m, Manifest.ofFolder w.disk path = .ok m → m.id ≠ id
  builtin : ∀ id e, w'.host.find? id = some e →
    e.isBuiltin = e.path.startsWith w.host.layout.bundledExtensions
  inactive : ∀ id e, w'.host.find? id = some e →
    e.isActive = false ∧ e.exports = .null ∧ e.hasModule = false ∧ e.context = none
  /-- The copies that were taken are those that are listed, each once and in the order in which they
  were found. -/
  copies : ∀ path m, (path, m) ∈ taken ↔
    ∃ e, w'.host.find? m.id = some e ∧ e.path = path ∧ e.manifest = m
  once : (taken.map fun copy => copy.2.id).Nodup
  ordered : (taken.map Prod.fst).Sublist found
  /-- Their defaults are filled in, and each of them is told of; nothing else changes. -/
  others : w' = { w with
    host := { w.host with extensions := w'.host.extensions, queues := w'.host.queues }
    api := taken.foldl (fun api copy => api.seed copy.2.defaults) w.api
    events := w.events ++ taken.map fun _ => .extensionsChanged }

namespace World

/-- What loading some folders leaves of a host that had nothing loaded. -/
theorem discovered_foldl (hfresh : w.host.extensions = []) (found : List Path) :
    Discovered w found (Manifest.firsts (Manifest.ofFolders w.disk found))
      (found.foldl loaded w) := by
  have hnone (id : String) : w.host.find? id = none := by
    rw [Host.find?, hfresh]
    rfl
  have hfold : found.foldl loaded w =
      (Manifest.firsts (Manifest.ofFolders w.disk found)).foldl take w := by
    rw [foldl_loaded, List.filter_eq_self.mpr fun copy _ => by rw [hnone]; rfl]
  set taken := Manifest.firsts (Manifest.ofFolders w.disk found) with htaken
  have hkept : ∀ (h : Host) (copies : List (Path × Manifest)), h.Untouched →
      let h' := copies.foldl (fun h copy => h.add copy.2.id copy.1 copy.2) h
      h'.Untouched ∧ h' = { h with extensions := h'.extensions, queues := h'.queues } := by
    intro h copies
    induction copies generalizing h with
    | nil => exact fun huntouched => ⟨huntouched, rfl⟩
    | cons copy copies ih =>
        intro huntouched
        obtain ⟨hrest, hsame⟩ := ih _ (huntouched.add copy.2.id copy.1 copy.2)
        exact ⟨hrest, hsame⟩
  obtain ⟨huntouched, hsame⟩ := hkept w.host taken fun id e he => by
    rw [hnone] at he
    cases he
  have hworld := hfold.trans (foldl_take w taken)
  have hhost : (found.foldl loaded w).host =
      taken.foldl (fun h copy => h.add copy.2.id copy.1 copy.2) w.host := by rw [hworld]
  rw [← hhost] at huntouched hsame
  have hlayout : (found.foldl loaded w).host.layout = w.host.layout := by rw [hsame]
  -- What is listed is the first copy that has been found.
  have hsource (id : String) : (found.foldl loaded w).host.source? id =
      (Manifest.ofFolders w.disk found).find? fun copy => copy.2.id == id := by
    rw [host_foldl_loaded, Host.source?_foldl_loaded, Host.source?, hnone, Option.map_none,
      Option.none_or, Manifest.find?_ofFolders]
  have hlisted {id : String} {path : Path} {m : Manifest} :
      (Manifest.ofFolders w.disk found).find? (fun copy => copy.2.id == id) = some (path, m) ↔
        ∃ e, (found.foldl loaded w).host.find? id = some e ∧ e.path = path ∧ e.manifest = m := by
    rw [← hsource, Host.source?, Option.map_eq_some_iff]
    simp only [Prod.mk.injEq]
  exact {
    listed := fun id => by
      have hsome : ((found.foldl loaded w).host.find? id).isSome =
          ((found.foldl loaded w).host.source? id).isSome := by simp [Host.source?]
      rw [hsome, hsource, List.find?_isSome]
      constructor
      · rintro ⟨⟨path, m⟩, hmem, hid⟩
        obtain ⟨hfound, hm⟩ := Manifest.mem_ofFolders.mp hmem
        exact ⟨path, hfound, m, hm, beq_iff_eq.mp hid⟩
      · rintro ⟨path, hfound, m, hm, hid⟩
        exact ⟨(path, m), Manifest.mem_ofFolders.mpr ⟨hfound, hm⟩, beq_iff_eq.mpr hid⟩
    first := fun id e he => by
      have hfirst := hlisted.mpr ⟨e, he, rfl, rfl⟩
      rw [Manifest.find?_ofFolders, List.findSome?_eq_some_iff] at hfirst
      obtain ⟨front, path, back, hsplit, hown, hothers⟩ := hfirst
      obtain ⟨rfl, hm, hid⟩ := Manifest.offered_eq_some.mp hown
      refine ⟨hid, front, back, hsplit, hm, fun path hpath m hm hother => ?_⟩
      have hsome := Manifest.offered_eq_some.mpr ⟨rfl, hm, hother⟩
      rw [hothers path hpath] at hsome
      cases hsome
    builtin := fun id e he => by rw [huntouched id e he, hlayout]
    inactive := fun id e he => by
      rw [huntouched id e he]
      exact ⟨rfl, rfl, rfl, rfl⟩
    copies := fun path m => Manifest.mem_firsts.trans hlisted
    once := Manifest.nodup_firsts _
    ordered := ((Manifest.sublist_firsts _).map _).trans (Manifest.sublist_ofFolders _ _)
    others := by
      rw [← hsame]
      exact hworld.trans (by rw [← hhost]) }

/-- Where all identifiers are there, nothing is loaded. -/
theorem foldl_loaded_settled {found : List Path} (h : ∀ path ∈ found, ∀ m,
    Manifest.ofFolder w.disk path = .ok m → (w.host.find? m.id).isSome = true) :
    found.foldl loaded w = w := by
  rw [foldl_loaded, List.filter_eq_nil_iff.mpr fun copy hcopy => ?_]
  · rfl
  · obtain ⟨hfound, hm⟩ := Manifest.mem_ofFolders.mp hcopy
    simp [Option.isSome_iff_ne_none.mp (h _ hfound _ hm)]

/-- For everything that lies below the two roots: a discovery of a host that had nothing loaded
takes of each identifier the first copy, in the order of a walk and the user's root before the
bundled ones.  A discovery later on, when the disk is the same and these identifiers are still
there, changes nothing. -/
theorem discover_fresh (hproper : w.disk.Proper) (hfresh : w.host.extensions = []) :
    ∃ user bundled found taken ids w',
      Discovery.Walk w.disk w.host.layout.userExtensions user ∧
      Discovery.Walk w.disk w.host.layout.bundledExtensions bundled ∧
      found = user.map w.host.layout.userExtensions.descend ++
        bundled.map w.host.layout.bundledExtensions.descend ∧
      discover.alone w = some (ids, w') ∧
      List.Forall₂ (fun path id => ∃ m, Manifest.ofFolder w.disk path = .ok m ∧ m.id = id)
        found ids ∧
      Discovered w found taken w' ∧
      ∀ v : World χ, v.disk = w.disk → v.host.layout = w.host.layout →
        (∀ id, (w'.host.find? id).isSome = true → (v.host.find? id).isSome = true) →
        discover.alone v = some (ids, v) := by
  obtain ⟨user, huser, hofUser⟩ := Discovery.exists_walk hproper w.host.layout.userExtensions
  obtain ⟨bundled, hbundled, hofBundled⟩ :=
    Discovery.exists_walk hproper w.host.layout.bundledExtensions
  have hdiscover := discover_alone_loaded w
  dsimp only at hdiscover
  rw [hofUser, hofBundled] at hdiscover
  set found := user.map w.host.layout.userExtensions.descend ++
    bundled.map w.host.layout.bundledExtensions.descend with hfound
  have hdiscovered := discovered_foldl hfresh found
  have hpackages : ∀ path ∈ found, ∃ m, Manifest.ofFolder w.disk path = .ok m := by
    intro path hpath
    rcases List.mem_append.mp hpath with hpath | hpath
    · obtain ⟨names, hnames, rfl⟩ := List.mem_map.mp hpath
      obtain ⟨place, -, hway⟩ := (huser.found names).mp hnames
      exact Discovery.isPackage_iff.mp hway.package
    · obtain ⟨names, hnames, rfl⟩ := List.mem_map.mp hpath
      obtain ⟨place, -, hway⟩ := (hbundled.found names).mp hnames
      exact Discovery.isPackage_iff.mp hway.package
  refine ⟨user, bundled, found, _, _, _, huser, hbundled, hfound, hdiscover, ?_, hdiscovered,
    fun v hdisk hlayout hthere => ?_⟩
  · exact Manifest.forall₂_ofFolders hpackages
  · have hagain := discover_alone_loaded v
    dsimp only at hagain
    rw [hdisk, hlayout, hofUser, hofBundled, ← hfound, foldl_loaded_settled] at hagain
    · exact hagain
    · intro path hpath m hm
      rw [hdisk] at hm
      exact hthere m.id ((hdiscovered.listed m.id).mpr ⟨path, hpath, m, hm, rfl⟩)

end World

/-! ## Copies at different depths -/

/-- The manifest of a version of an extension. -/
def copyText (name version : String) : String :=
  "\x7b\"publisher\":\"p\",\"name\":\"" ++ name ++ "\",\"version\":\"" ++ version ++ "\"\x7d"

/-- A folder with a manifest. -/
def copyFolder (text : String) : Node := .folder [("package.json", .file (.text text))]

/-- A disk with copies of three extensions below the two roots, beside a folder whose manifest
cannot be read. -/
def copiesDisk : Disk where
  root := .folder [("data", .folder [
    ("bundled-extensions", .folder [
      ("p.b", copyFolder (copyText "b" "1.0.0")),
      ("p.c", copyFolder (copyText "c" "1.0.0"))]),
    ("extensions", .folder [
      ("broken", .folder [
        ("inner", copyFolder (copyText "b" "2.0.0")),
        ("package.json", .file (.text "?"))]),
      ("mine", copyFolder (copyText "a" "1.0.0")),
      ("p.a", copyFolder (copyText "a" "2.0.0"))])])]

theorem proper_copiesDisk : copiesDisk.Proper := by
  have hfile (text : String) : (Node.file (.text text)).Proper := .file _
  simp only [Disk.Proper, copiesDisk, copyFolder, Node.proper_folder_iff, hfile, Table.Sorted,
    Table.keys, List.forall_mem_cons, List.not_mem_nil, false_imp_iff, implies_true, and_true,
    List.map_cons, List.map_nil]
  decide

/-- Of each extension the first copy is taken, and a second discovery changes nothing. -/
theorem discover_fresh_copies : copiesDisk.Proper ∧
    (startedWorld copiesDisk).host.extensions = [] ∧
    ∃ ids w', World.discover.alone (startedWorld copiesDisk) = some (ids, w') ∧
      ids = ["p.b", "p.a", "p.a", "p.b", "p.c"] ∧
      w'.host.descriptors.map (fun e => (e.id, e.path.text, e.isBuiltin)) =
        [("p.a", "/data/extensions/mine", false),
          ("p.b", "/data/extensions/broken/inner", false),
          ("p.c", "/data/bundled-extensions/p.c", true)] ∧
      w'.events = [.extensionsChanged, .extensionsChanged, .extensionsChanged] ∧
      World.discover.alone w' = some (ids, w') := by
  obtain ⟨user, bundled, found, taken, ids, w', -, -, -, hdiscover, -, hdiscovered, hagain⟩ :=
    World.discover_fresh (w := startedWorld copiesDisk) proper_copiesDisk rfl
  have hrun : ((World.discover.alone (startedWorld copiesDisk)).map fun r =>
      (r.1, r.2.host.descriptors.map (fun e => (e.id, e.path.text, e.isBuiltin)), r.2.events)) =
      some (["p.b", "p.a", "p.a", "p.b", "p.c"],
        [("p.a", "/data/extensions/mine", false),
          ("p.b", "/data/extensions/broken/inner", false),
          ("p.c", "/data/bundled-extensions/p.c", true)],
        [.extensionsChanged, .extensionsChanged, .extensionsChanged]) := by
    decide +kernel
  rw [hdiscover] at hrun
  obtain ⟨hids, hlisted⟩ := Prod.mk.inj (Option.some.inj hrun)
  obtain ⟨hdescriptors, hevents⟩ := Prod.mk.inj hlisted
  refine ⟨proper_copiesDisk, rfl, ids, w', hdiscover, hids, hdescriptors, hevents,
    hagain w' ?_ ?_ fun _ h => h⟩
  · rw [hdiscovered.others]
  · rw [hdiscovered.others]

end EditorHost
