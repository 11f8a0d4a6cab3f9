import EditorHost.Proofs.Disk.Remaking

/-!
# A copy of a folder

Where a copy comes to its end, it holds what the folder holds, entry by entry and down to the last;
links are replaced by the files that their paths lead to (`Disk.mirrors_copyTree`).

While the entries are copied, whatever is seen at the new place is already right, and it stays; what
comes of the next entry is seen behind it.  So it does not matter in which order they are copied.

## Contents

* `Disk.CopyOf`, what is seen of a node in a copy, and `Disk.Mirrors`, a copy that is complete.
* `Disk.Copying`, a copy under way, with one lemma for an entry and one for all of them.
-/

namespace EditorHost.Disk

open EditorHost.Path (IsName)

variable {d d' : Disk} {source target path : Path} {node child : Node} {place names : List String}

/-! ## What is seen in a copy -/

/-- What is seen in a copy of something at a path: a link is replaced by the file that its path
leads to. -/
inductive CopyOf (d : Disk) (path : Path) : Face → Face → Prop where
  | file (content : Content) : CopyOf d path (.file content) (.file content)
  | folder : CopyOf d path .folder .folder
  | link {goal : Path} {content : Content} (h : d.nodeAt path = .ok (.file content)) :
      CopyOf d path (.link goal) (.file content)

/-- What is seen at a place and below it is a copy of what is seen at a path and below it. -/
def Mirrors (d : Disk) (source : Path) (seen : List String → Option Face) (place : List String) :
    Prop :=
  ∀ names, Option.Rel (CopyOf d (source.descend names)) (seen names) (d.faceAt (place ++ names))

section CopyOf

variable {own face other : Face}

theorem CopyOf.eq (h : CopyOf d path own face) (h' : CopyOf d path own other) : face = other := by
  cases h with
  | file content => cases h'; rfl
  | folder => cases h'; rfl
  | link hface =>
      cases h' with
      | link hother =>
          obtain rfl := Node.file.inj (Except.ok.inj (hface.symm.trans hother))
          rfl

theorem CopyOf.ne_link (h : CopyOf d path own face) (goal : Path) : face ≠ .link goal := by
  cases h <;> simp

theorem CopyOf.mono (h : CopyOf d path own face) (hhere : d'.here = d.here)
    (hfaces : Extends d d') : CopyOf d' path own face := by
  cases h with
  | file content => exact .file content
  | folder => exact .folder
  | link h => exact .link (nodeAt_mono hhere hfaces h)

/-- What is seen in the copy of something that is there. -/
theorem Mirrors.copyOf {seen : List String → Option Face} (h : d.Mirrors source seen place)
    (hseen : seen names = some own) :
    ∃ face, d.faceAt (place ++ names) = some face ∧ CopyOf d (source.descend names) own face := by
  have hnames := h names
  rw [hseen] at hnames
  cases hface : d.faceAt (place ++ names) with
  | none =>
      rw [hface] at hnames
      cases hnames
  | some face =>
      rw [hface] at hnames
      cases hnames with
      | some hcopy => exact ⟨face, rfl, hcopy⟩

/-- What is no link looks the same in the copy. -/
theorem Mirrors.faceAt_eq {seen : List String → Option Face} (h : d.Mirrors source seen place)
    (hfree : ∀ goal, seen names ≠ some (.link goal)) : d.faceAt (place ++ names) = seen names := by
  have hnames := h names
  cases hseen : seen names with
  | none =>
      rw [hseen] at hnames
      cases hface : d.faceAt (place ++ names) with
      | none => rfl
      | some face =>
          rw [hface] at hnames
          cases hnames
  | some own =>
      obtain ⟨face, hface, hcopy⟩ := h.copyOf hseen
      rw [hface]
      cases hcopy with
      | file content => rfl
      | folder => rfl
      | link _ => exact absurd hseen (hfree _)

end CopyOf

/-! ## A copy under way -/

/-- A copy of a node under way, begun with one disk and come to another: whatever is seen at the new
place is right. -/
structure Copying (source target : Path) (node : Node) (place : List String) (d₀ d : Disk) :
    Prop where
  confined : Confined place d₀ d
  proper : d.Proper
  leads : d.Leads (startOf target d.here) target.parts place
  right : ∀ names face, d.faceAt (place ++ names) = some face →
    ∃ own, node.faceAt names = some own ∧ CopyOf d (source.descend names) own face

namespace Copying

variable {d₀ : Disk} (h : Copying source target node place d₀ d)

include h

theorem free (names : List String) (goal : Path) :
    d.faceAt (place ++ names) ≠ some (.link goal) := by
  intro hlink
  obtain ⟨own, -, hcopy⟩ := h.right names _ hlink
  exact hcopy.ne_link goal rfl

/-- Where an entry of the copy is made. -/
theorem leads_descend {front : List String} {last : String}
    (hnames : ∀ name ∈ front ++ [last], IsName name) :
    d.Leads (startOf (target.descend (front ++ [last])) d.here) (target.parts ++ front)
      (place ++ front) ∧
      (target.descend (front ++ [last])).parts = target.parts ++ front ++ [last] := by
  have hstart : startOf (target.descend (front ++ [last])) d.here = startOf target d.here := by
    simp only [startOf, Path.isAbsolute_descend hnames]
  refine ⟨hstart ▸ h.leads.names (fun name hname => hnames name (List.mem_append_left _ hname))
    fun first _ _ => h.free first, ?_⟩
  rw [Path.parts_descend hnames, List.append_assoc]

/-- A folder is copied. -/
theorem createFolders {front : List String} {last : String}
    (hnames : ∀ name ∈ front ++ [last], IsName name)
    (hfolder : node.faceAt (front ++ [last]) = some .folder)
    (hrun : d.perform (createFolders (target.descend (front ++ [last]))) = (.ok (), d')) :
    Copying source target node place d₀ d' ∧ Extends d d' ∧
      (d'.faceAt (place ++ (front ++ [last]))).isSome = true := by
  obtain ⟨hleads, hparts⟩ := h.leads_descend hnames
  have hlast := hnames last (by simp)
  have hpaves := paves_createFolders hleads hlast hparts
  rw [hrun, List.append_assoc] at hpaves
  have hthere : d'.faceAt (place ++ (front ++ [last])) = some .folder := by
    have hfree := h.free (front ++ [last])
    rw [← List.append_assoc] at hfree ⊢
    exact faceAt_createFolders hleads hlast hparts hfree hrun
  refine ⟨⟨h.confined.trans (hpaves.confined (.inr (List.prefix_append _ _))),
    hpaves.proper h.proper, ?_, fun names face hface => ?_⟩, hpaves.faceAt, by rw [hthere]; rfl⟩
  · have hsame := hpaves.leads h.leads
    rwa [← hpaves.here] at hsame
  · have hkept (hsame : d'.faceAt (place ++ names) = d.faceAt (place ++ names)) :
        ∃ own, node.faceAt names = some own ∧ CopyOf d' (source.descend names) own face := by
      obtain ⟨own, hown, hcopy⟩ := h.right names face (hsame ▸ hface)
      exact ⟨own, hown, hcopy.mono hpaves.here hpaves.faceAt⟩
    rcases hpaves.faces (place ++ names), hpaves.way (place ++ names) with
      ⟨hsame | ⟨-, hnew⟩, hsame' | hway⟩
    · exact hkept hsame
    · exact hkept hsame
    · exact hkept hsame'
    · -- What is new is the folder itself, or one above it.
      obtain rfl : face = .folder := Option.some.inj (hface.symm.trans hnew)
      have habove : names <+: front ++ [last] := (List.prefix_append_right_inj _).mp hway
      exact ⟨.folder, Node.faceAt_folder_above hfolder habove, .folder⟩

/-- A file is copied, or a link to one. -/
theorem writeFile {front : List String} {last : String} {own : Face} {content : Content}
    (hnames : ∀ name ∈ front ++ [last], IsName name)
    (hown : node.faceAt (front ++ [last]) = some own)
    (hcopy : CopyOf d (source.descend (front ++ [last])) own (.file content))
    (hrun : d.perform (writeFile (target.descend (front ++ [last])) content) = (.ok (), d')) :
    Copying source target node place d₀ d' ∧ Extends d d' ∧
      (d'.faceAt (place ++ (front ++ [last]))).isSome = true := by
  obtain ⟨hleads, hparts⟩ := h.leads_descend hnames
  have hfree := h.free (front ++ [last])
  have hright := h.right (front ++ [last])
  have hplace : place <+: place ++ front ++ [last] :=
    (List.prefix_append _ _).trans (List.prefix_append _ _)
  rw [← List.append_assoc] at hfree hright ⊢
  rcases perform_writeFile_leads hleads hparts hfree content with
    ⟨e, herror⟩ | ⟨entries, hentries, hdone⟩
  · cases herror.symm.trans hrun
  obtain ⟨-, rfl⟩ := Prod.mk.inj (hdone.symm.trans hrun)
  have hfaces := @faceAt_put_file d (place ++ front) entries last hentries content
  -- What was there before, if anything, is the same file.
  have hextends : Extends d
      { d with root := d.root.put (.file content) (place ++ front ++ [last]) } := by
    intro other face hface
    rw [hfaces]
    by_cases hother : other = place ++ front ++ [last]
    · subst hother
      obtain ⟨held, hheld, hcopied⟩ := hright face hface
      obtain rfl := Option.some.inj (hheld.symm.trans hown)
      rw [if_pos rfl, hcopied.eq hcopy]
    · rw [if_neg hother, if_neg, hface]
      rintro ⟨rest, rfl⟩
      cases rest with
      | nil => exact hother (List.append_nil _)
      | cons name rest =>
          obtain ⟨held, hheld, hcopied⟩ := hright _ (faceAt_folder_of_isSome (by rw [hface]; rfl))
          obtain rfl := Option.some.inj (hheld.symm.trans hown)
          cases hcopied.eq hcopy
  have hput : Confined place d
      { d with root := d.root.put (.file content) (place ++ front ++ [last]) } := by
    exact confined_put hentries (hnames last (by simp)) (.file content) hplace
  refine ⟨⟨h.confined.trans hput, hput.proper h.proper,
    h.leads.mono hextends fun other _ => hput.links other, fun names face hface => ?_⟩, hextends,
    by rw [hfaces, if_pos rfl]; rfl⟩
  rw [hfaces] at hface
  split at hface
  next hnames =>
    obtain rfl : names = front ++ [last] := by simpa using hnames
    obtain rfl := Option.some.inj hface
    exact ⟨own, hown, hcopy.mono rfl hextends⟩
  · split at hface
    · cases hface
    · obtain ⟨held, hheld, hcopied⟩ := h.right names face hface
      exact ⟨held, hheld, hcopied.mono rfl hextends⟩

/-- What comes of one entry: the copy goes on, what was seen stays, and the entry is seen. -/
theorem copyEntry (hne : names ≠ []) (hnames : ∀ name ∈ names, IsName name)
    (hget : node.get? names = some child)
    (hrun : d.perform (copyEntry source target ⟨(⟨""⟩ : Path).descend names, child⟩) =
      (.ok (), d')) :
    Copying source target node place d₀ d' ∧ Extends d d' ∧
      (d'.faceAt (place ++ names)).isSome = true := by
  obtain ⟨front, last, rfl⟩ := (List.eq_nil_or_concat names).resolve_left hne
  rw [List.concat_eq_append] at *
  have hface : node.faceAt (front ++ [last]) = some child.face := by rw [Node.faceAt, hget]; rfl
  simp only [Disk.copyEntry, Path.join_descend hne hnames] at hrun
  cases child with
  | folder entries => exact h.createFolders hnames hface hrun
  | file content => exact h.writeFile hnames hface (.file content) hrun
  | link goal =>
      obtain ⟨own, d₁, hlook, hrun⟩ := perform_bind_eq_ok hrun
      rw [perform_look] at hlook
      obtain ⟨hown, rfl⟩ := Prod.mk.inj hlook
      cases own with
      | file content => exact h.writeFile hnames hface (.link hown) hrun
      | _ => cases hrun

/-- What comes of the entries, one after the other. -/
theorem forM {entries : List Entry} (hentries : ∀ entry ∈ entries, ∃ names, names ≠ [] ∧
      (∀ name ∈ names, IsName name) ∧ node.get? names = some entry.node ∧
        entry.path = (⟨""⟩ : Path).descend names)
    (hrun : d.perform (entries.forM (Disk.copyEntry source target)) = (.ok (), d')) :
    Copying source target node place d₀ d' ∧ Extends d d' ∧
      ∀ names, (∀ name ∈ names, IsName name) →
        (∃ child, ⟨(⟨""⟩ : Path).descend names, child⟩ ∈ entries) →
          (d'.faceAt (place ++ names)).isSome = true := by
  induction entries generalizing d with
  | nil =>
      obtain ⟨-, rfl⟩ := Prod.mk.inj hrun
      exact ⟨h, fun _ _ hface => hface, fun names _ ⟨child, hmem⟩ => absurd hmem List.not_mem_nil⟩
  | cons entry entries ih =>
      obtain ⟨⟨names, hne, hnames, hget, hpath⟩, hothers⟩ := List.forall_mem_cons.mp hentries
      obtain ⟨_, d₁, hfirst, hrest⟩ := perform_bind_eq_ok hrun
      obtain ⟨path, child⟩ := entry
      obtain rfl : path = (⟨""⟩ : Path).descend names := hpath
      obtain ⟨hcopying, hextends, hthere⟩ := h.copyEntry hne hnames hget hfirst
      obtain ⟨hcopied, hextends', hall⟩ := ih hcopying hothers hrest
      refine ⟨hcopied, fun other face hface => hextends' other face (hextends other face hface),
        fun own hown hmem => ?_⟩
      obtain ⟨held, hmem⟩ := hmem
      rcases List.mem_cons.mp hmem with heq | hmem
      · obtain rfl := Path.descend_inj hown hnames (congrArg Entry.path heq)
        obtain ⟨face, hface⟩ := Option.isSome_iff_exists.mp hthere
        rw [hextends' _ face hface]
        rfl
      · exact hall own hown ⟨held, hmem⟩

end Copying

/-! ## The whole copy -/

/-- A file is never copied to a path that asks for a folder. -/
theorem copyFile_join_empty (htarget : target.text ≠ "") (source : Path) {value : Unit} :
    d.perform (copyFile source (target.join "")) ≠ (.ok value, d') := by
  intro h
  obtain ⟨node, d₁, hlook, h⟩ := perform_bind_eq_ok h
  cases node with
  | file content =>
      rcases perform_writeFile d₁ (target.join "") content with ⟨e, herror⟩ | ⟨s, -, hslash, -⟩
      · rw [herror] at h
        cases h
      · rw [Path.endsInSlash_join_empty htarget] at hslash
        cases hslash
  | _ => cases h

/-- What a copy of a folder consists of that comes to its end. -/
theorem copyTree_eq_ok (htarget : target.text ≠ "")
    (h : d.perform (copyTree source target) = (.ok (), d')) :
    ∃ (entries : Table Node) (d₁ : Disk), d.entryAt source = .ok (.folder entries) ∧
      d.perform (createFolders (target.join "")) = (.ok (), d₁) ∧
      d₁.leadsInto target source = .ok false ∧
      d₁.perform ((entriesOf ⟨""⟩ (.folder entries)).forM (copyEntry source target)) =
        (.ok (), d') := by
  obtain ⟨node, d₁, hlook, h⟩ := perform_bind_eq_ok h
  rw [perform_look] at hlook
  obtain ⟨hentry, rfl⟩ := Prod.mk.inj hlook
  cases node with
  | file _ => exact absurd h (copyFile_join_empty htarget source)
  | link _ => exact absurd h (copyFile_join_empty htarget source)
  | folder entries =>
      obtain ⟨_, d₁, hcreate, h⟩ := perform_bind_eq_ok h
      obtain ⟨into, d₂, hlook, h⟩ := perform_bind_eq_ok h
      rw [perform_look] at hlook
      obtain ⟨hinto, rfl⟩ := Prod.mk.inj hlook
      cases into with
      | true => cases h
      | false =>
          rw [if_neg (by simp)] at h
          exact ⟨entries, d₁, hentry, hcreate, hinto, h⟩

theorem leadsInto_eq_ok {p base : Path} {into : Bool} : d.leadsInto p base = .ok into ↔
    ∃ below above, d.locate p = .ok below ∧ d.locate base = .ok above ∧
      above.isPrefixOf below = into := by
  have hinto : d.leadsInto p base = (d.locate base).bind fun above =>
      (d.locate p).bind fun below => .ok (above.isPrefixOf below) := rfl
  rw [hinto]
  cases d.locate base <;> cases d.locate p <;> simp [Except.bind]

/-- Where all entries have been copied, the copy is complete. -/
theorem Copying.mirrors {d₀ : Disk} (h : Copying source target node place d₀ d)
    (hall : ∀ names, (node.get? names).isSome = true → (d.faceAt (place ++ names)).isSome = true) :
    d.Mirrors source node.faceAt place := by
  intro names
  cases hface : d.faceAt (place ++ names) with
  | none =>
      have hnone : node.faceAt names = none := by
        by_contra hsome
        have hexists := Option.isSome_map.symm.trans (Option.isSome_iff_ne_none.mpr hsome)
        have hthere := hall names hexists
        rw [hface] at hthere
        cases hthere
      rw [hnone]
      exact .none
  | some face =>
      obtain ⟨own, hown, hcopy⟩ := h.right names face hface
      rw [hown]
      exact .some hcopy

section Whole

variable {parts : List String} {name : String} {entries : Table Node}

/-- A copy that begins: the folder itself is made where nothing is. -/
theorem Copying.begin (source : Path) (entries : Table Node) (hproper : d.Proper)
    (hleads : d.Leads (startOf target d.here) parts place) (hname : IsName name)
    (hparts : target.parts = parts ++ [name]) (hbare : d.Bare (place ++ [name]))
    (h : d.perform (Disk.createFolders (target.join "")) = (.ok (), d')) :
    Copying source target (.folder entries) (place ++ [name]) d d' ∧ Extends d d' ∧
      d'.faceAt (place ++ [name]) = some .folder := by
  have hfree : ∀ goal, d.faceAt (place ++ [name]) ≠ some (.link goal) := by
    intro goal hlink
    cases hbare.folder _ hlink
  have hempty : (⟨""⟩ : Path).isAbsolute = false := rfl
  have hstart : startOf (target.join "") d.here = startOf target d.here := by
    simp only [startOf, Path.isAbsolute_join hempty]
  have hjoin : (target.join "").parts = parts ++ [name] := by
    rw [Path.parts_join hempty, hparts]
    exact List.append_nil _
  have hpaves := paves_createFolders (hstart ▸ hleads) hname hjoin
  rw [h] at hpaves
  have hmade := faceAt_createFolders (hstart ▸ hleads) hname hjoin hfree h
  refine ⟨⟨hpaves.confined (.inl (List.prefix_refl _)), hpaves.proper hproper, ?_,
    fun names face hface => ?_⟩, hpaves.faceAt, hmade⟩
  · rw [hparts, hpaves.here]
    exact hpaves.leads (hleads.name hname hfree)
  · cases names with
    | nil =>
        rw [List.append_nil, hmade] at hface
        obtain rfl := Option.some.inj hface
        exact ⟨.folder, rfl, .folder⟩
    | cons first rest =>
        rcases hpaves.way (place ++ [name] ++ first :: rest) with hsame | hway
        · rw [hsame, hbare.below] at hface
          cases hface
        · have hlong := hway.length_le
          simp at hlong

/-- Where a folder has been copied into a place where nothing is, the place holds what the folder
holds.  The folder lies neither there nor above, and nothing else changes. -/
theorem mirrors_copyTree (hproper : d.Proper) (htarget : target.text ≠ "")
    (hleads : d.Leads (startOf target d.here) parts place) (hname : IsName name)
    (hparts : target.parts = parts ++ [name]) (hbare : d.Bare (place ++ [name]))
    (h : d.perform (copyTree source target) = (.ok (), d')) :
    ∃ own, d.locate source = .ok own ∧ d.faceAt own = some .folder ∧
      ¬ own <+: place ++ [name] ∧ ¬ place ++ [name] <+: own ∧ Confined (place ++ [name]) d d' ∧
      d'.Leads (startOf target d'.here) target.parts (place ++ [name]) ∧
      d'.Mirrors source (fun names => d.faceAt (own ++ names)) (place ++ [name]) := by
  obtain ⟨entries, d₁, hentry, hcreate, hinto, hrun⟩ := copyTree_eq_ok htarget h
  obtain ⟨own, hlocate, hentries⟩ := locate_of_entryAt hentry
  have hown := follow_of_locate hlocate
  obtain ⟨hbegun, hextends, hmade⟩ :=
    Copying.begin source entries hproper hleads hname hparts hbare hcreate
  -- The folder that is copied does not lie where the copy does, nor above.
  have habove : ¬ own <+: place ++ [name] := by
    obtain ⟨below, above, hbelow, habove, hnot⟩ := leadsInto_eq_ok.mp hinto
    have hbase := follow_of_locate habove
    rw [hbegun.confined.here, follow_mono hextends hown] at hbase
    obtain rfl := Except.ok.inj hbase
    obtain rfl := hbegun.leads.eq_of_follow (follow_of_locate hbelow)
    rw [← List.isPrefixOf_iff_prefix, hnot]
    exact Bool.false_ne_true
  have hbelow : ¬ place ++ [name] <+: own := by
    intro hbelow
    obtain rfl := hbare.eq_self hbelow (by rw [faceAt, Node.faceAt, hentries]; rfl)
    exact habove (List.prefix_refl _)
  have hnode := proper_of_entryAt hproper hentry
  obtain ⟨hcopied, hextends', hall⟩ := hbegun.forM (fun entry hentry => by
    obtain ⟨names, hne, hget, hpath⟩ := (mem_entriesOf hnode).mp hentry
    exact ⟨names, hne, hnode.isName (by rw [hget]; rfl), hget, hpath⟩) hrun
  have hsame : (fun names => d.faceAt (own ++ names)) = (Node.folder entries).faceAt :=
    funext (faceAt_append hentries)
  refine ⟨own, hlocate, faceAt_eq_some_folder.mpr ⟨entries, hentries⟩, habove, hbelow,
    hcopied.confined, hcopied.leads, hsame ▸ hcopied.mirrors fun names hsome => ?_⟩
  by_cases hne : names = []
  · subst hne
    rw [List.append_nil, hextends' _ _ hmade]
    rfl
  · obtain ⟨child, hchild⟩ := Option.isSome_iff_exists.mp hsome
    exact hall names (hnode.isName hsome)
      ⟨child, (mem_entriesOf hnode).mpr ⟨names, hne, hchild, rfl⟩⟩

/-- A file that a folder holds, or a link to one, is a file in the copy. -/
theorem Mirrors.faceAt_file {own : List String} {content : Content} {d₀ : Disk}
    (h : d.Mirrors source (fun names => d₀.faceAt (own ++ names)) place) (hname : IsName name)
    (hown : d₀.locate source = .ok own)
    (hbefore : d₀.nodeAt (source.join name) = .ok (.file content))
    (hbehind : d.nodeAt (source.join name) = .ok (.file content)) :
    d.faceAt (place ++ [name]) = some (.file content) := by
  obtain ⟨own', entries, hown', hentries, hfind⟩ := follow_of_nodeAt_join hname hbefore
  obtain rfl : own' = own := Except.ok.inj (hown'.symm.trans (follow_of_locate hown))
  have hseen := faceAt_concat hentries name
  rcases hfind with ⟨goal, hlink⟩ | hfile
  · rw [hlink] at hseen
    obtain ⟨face, hface, hcopy⟩ := h.copyOf hseen
    rw [hface, hcopy.eq (.link hbehind)]
  · rw [hfile] at hseen
    obtain ⟨face, hface, hcopy⟩ := h.copyOf hseen
    rw [hface, hcopy.eq (.file content)]

end Whole

end EditorHost.Disk
