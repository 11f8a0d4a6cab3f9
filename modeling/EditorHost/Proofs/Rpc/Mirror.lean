import EditorHost.Proofs.Rpc.Standing

/-!
# Servers know the open documents

Whatever is called on a client and whatever its servers do, a server that is ready to be talked to
has been told of exactly the documents of its language that are open, with their versions and texts
(`mirrored`).

The proof keeps `Synchronised` along all steps: every server in the table stands in step with the
documents.  A call about documents changes them and tells the server of one language
(`Synchronised.tell`); everything else leaves the documents as they are and touches servers, each of
which stays as it stands (`Synchronised.touches`), or servers that are not in the table any more,
where it does not matter.
-/

namespace EditorHost.Rpc

open Interleaving (System Pool Move Task)
open Client (server Touches Attached Started Confined)

/-! ## Clients in step with their servers -/

/-- Every server in the table stands in step with the documents.  `intact` are the servers for which
writing has never failed. -/
structure Synchronised (intact : ServerId → Prop) (c : Client) : Prop where
  valid : ∀ entry ∈ c.servers, entry.2 < c.connections.length ∧
    ((server entry.2).get c).language = entry.1
  standing : ∀ language id, c.servers.find? language = some id →
    Standing c.documents ((server id).get c)
  writable : ∀ language id, c.servers.find? language = some id → intact id →
    ((server id).get c).writable = true
  sorted : c.documents.Sorted
  versions : ∀ uri d, c.documents.find? uri = some d → d.version ≤ Document.greatestVersion

/-- The second server is the first one later on, and stands as before. -/
structure Kept (documents : Table Synced) (intact : Prop) (s s' : Server) : Prop where
  language : s'.language = s.language
  standing : Standing documents s → Standing documents s'
  writable : intact → s.writable = true → s'.writable = true

variable {intact : ServerId → Prop} {c c' : Client}

theorem Synchronised.mem {language : String} {id : ServerId}
    (h : Synchronised intact c) (hid : c.servers.find? language = some id) :
    id < c.connections.length ∧ ((server id).get c).language = language :=
  h.valid (language, id) (Table.mem_of_find? hid)

/-- Servers that are touched stand as before, or are not in the table. -/
theorem Synchronised.touches (h : Synchronised intact c) {ids : List ServerId}
    (htouches : Touches ids c c')
    (hids : ∀ id ∈ ids, ∀ language, (language, id) ∈ c.servers →
      Kept c.documents (intact id) ((server id).get c) ((server id).get c')) :
    Synchronised intact c' := by
  have hkept (entry : String × ServerId) (hentry : entry ∈ c.servers) :
      Kept c.documents (intact entry.2) ((server entry.2).get c) ((server entry.2).get c') := by
    by_cases hid : entry.2 ∈ ids
    · exact hids entry.2 hid entry.1 hentry
    · rw [htouches.others entry.2 hid]
      exact ⟨rfl, id, fun _ => id⟩
  refine ⟨?_, ?_, ?_, ?_, ?_⟩
  · intro entry hentry
    rw [htouches.servers] at hentry
    obtain ⟨hlength, hlanguage⟩ := h.valid entry hentry
    exact ⟨htouches.length.symm ▸ hlength, (hkept entry hentry).language.trans hlanguage⟩
  · intro language id hid
    rw [htouches.servers] at hid
    rw [htouches.documents]
    exact (hkept _ (Table.mem_of_find? hid)).standing (h.standing language id hid)
  · intro language id hid hintact
    rw [htouches.servers] at hid
    exact (hkept _ (Table.mem_of_find? hid)).writable hintact (h.writable language id hid hintact)
  · exact htouches.documents.symm ▸ h.sorted
  · exact htouches.documents.symm ▸ h.versions

/-! ## Calls about documents -/

/-- Tells the server of a language something, if it is ready. -/
def Client.tell (c : Client) (language method : String) (params : Json) : Client :=
  c.notify (c.ready? language) method params

theorem tell_with (c : Client) (documents : Table Synced) (language method : String)
    (params : Json) : { c with documents }.tell language method params =
      { c.tell language method params with documents } := by
  unfold Client.tell Client.notify
  have hready : { c with documents }.ready? language = c.ready? language := rfl
  rw [hready]
  cases c.ready? language <;> rfl

/-- What servers are told does not depend on what the documents are meanwhile. -/
theorem tell_tell (c : Client) (documents meanwhile : Table Synced)
    (language method language' method' : String) (params params' : Json) :
    ({ c with documents }.tell language method params).tell language' method' params' =
      { { c.tell language method params with documents := meanwhile }.tell
          language' method' params' with documents } := by
  calc ({ c with documents }.tell language method params).tell language' method' params'
      = { c.tell language method params with documents }.tell language' method' params' := by
        rw [tell_with c]
    _ = { (c.tell language method params).tell language' method' params' with documents } :=
        tell_with _ _ _ _ _
    _ = { { c.tell language method params with documents := meanwhile }.tell
          language' method' params' with documents } := by rw [tell_with _ meanwhile]

theorem ready?_eq_some {language : String} {id : ServerId} :
    c.ready? language = some id ↔
      c.servers.find? language = some id ∧ ((server id).get c).state = .initialized := by
  simp [Client.ready?, Option.filter_eq_some_iff]

section Tell

variable {language method : String} {params : Json}

@[simp] theorem tell_servers : (c.tell language method params).servers = c.servers := by
  unfold Client.tell Client.notify
  cases c.ready? language <;> rfl

theorem tell_documents : (c.tell language method params).documents = c.documents := by
  unfold Client.tell Client.notify
  cases c.ready? language <;> rfl

@[simp] theorem tell_length :
    (c.tell language method params).connections.length = c.connections.length := by
  unfold Client.tell Client.notify
  cases c.ready? language with
  | none => rfl
  | some id => exact Client.length_modifyServer _

@[simp] theorem tell_language (id : ServerId) :
    ((server id).get (c.tell language method params)).language = ((server id).get c).language := by
  unfold Client.tell Client.notify
  cases c.ready? language with
  | none => rfl
  | some told =>
      by_cases heq : id = told
      · subst heq
        by_cases hlength : id < c.connections.length
        · rw [Client.get_modifyServer hlength, Server.notify_snd]
        · simp [server, Client.modifyServer, Nat.le_of_not_lt hlength]
      · rw [Client.get_modifyServer_of_ne heq]

/-- Only a ready server of the language is told. -/
theorem get_tell (h : Synchronised intact c) {other : String} {id : ServerId}
    (hid : c.servers.find? other = some id) :
    (server id).get (c.tell language method params) =
      if other = language ∧ ((server id).get c).state = .initialized then
        (((server id).get c).notify method params).2
      else (server id).get c := by
  unfold Client.tell
  cases hready : c.ready? language with
  | none =>
      have hnot : ¬ (other = language ∧ ((server id).get c).state = .initialized) := by
        rintro ⟨rfl, hstate⟩
        rw [ready?_eq_some.mpr ⟨hid, hstate⟩] at hready
        cases hready
      rw [if_neg hnot]
      rfl
  | some told =>
      obtain ⟨htold, hstate⟩ := ready?_eq_some.mp hready
      rw [Client.notify]
      by_cases heq : other = language
      · subst heq
        rw [hid, Option.some.injEq] at htold
        subst htold
        rw [if_pos ⟨rfl, hstate⟩, Client.get_modifyServer (h.mem hid).1]
      · -- Two languages do not share a server, because each is in the table under its own.
        have hne : id ≠ told := by
          rintro rfl
          exact heq ((h.mem hid).2.symm.trans (h.mem htold).2)
        rw [if_neg fun hboth => heq hboth.1, Client.get_modifyServer_of_ne hne]

/-- The documents change, and the server of the language that this is about is told. -/
theorem Synchronised.tell (h : Synchronised intact c) {note : Note}
    (hread : Note.read? (notification method params) = some note)
    {documents : Table Synced} (hsorted : documents.Sorted)
    (hversions : ∀ uri d, documents.find? uri = some d → d.version ≤ Document.greatestVersion)
    (hothers : ∀ other, other ≠ language → ∀ uri,
      (documents.find? uri).filter (fun d => d.language == other) =
        (c.documents.find? uri).filter fun d => d.language == other)
    (hnote : ∀ known, Mirrors c.documents language known → ∃ known',
      (Knowledge.documents known).take note = some (.documents known') ∧
        Mirrors documents language known') :
    Synchronised intact { c.tell language method params with documents } := by
  refine ⟨fun entry hentry => ?_, fun other id hid => ?_, fun other id hid hintact => ?_,
    hsorted, hversions⟩
  · rw [tell_servers] at hentry
    rw [tell_length]
    exact ⟨(h.valid entry hentry).1, (tell_language entry.2).trans (h.valid entry hentry).2⟩
  · rw [tell_servers] at hid
    have hstanding := h.standing other id hid
    obtain ⟨-, hlanguage⟩ := h.mem hid
    show Standing documents ((server id).get (c.tell language method params))
    rw [get_tell h hid]
    by_cases heq : other = language
    · subst heq
      -- Who is not ready yet is told of everything with the end of the greeting.
      by_cases hstate : ((server id).get c).state = .initialized
      · rw [if_pos ⟨rfl, hstate⟩]
        exact hstanding.tell hstate hread (hlanguage.symm ▸ hnote)
      · rw [if_neg fun hboth => hstate hboth.2]
        exact hstanding.of_not_ready hstate
    · rw [if_neg fun hboth => heq hboth.1]
      -- Servers of other languages see no difference.
      refine hstanding.congr fun uri => ?_
      rw [hlanguage]
      exact hothers other heq uri
  · rw [tell_servers] at hid
    have hwritable := h.writable other id hid hintact
    show ((server id).get (c.tell language method params)).writable = true
    rw [get_tell h hid]
    split
    · rw [Server.notify_snd]
      exact hwritable
    · exact hwritable

end Tell

/-! ### Documents opened, changed, saved and closed -/

section Documents

variable {uri language text : String}

theorem nextVersion_le {version : Int} (h : version ≤ Document.greatestVersion) :
    Document.nextVersion version ≤ Document.greatestVersion := by
  unfold Document.nextVersion
  split <;> omega

/-- A new version is greater than the one before, unless that is the greatest there is. -/
theorem nextVersion_cases {version : Int} (h : version ≤ Document.greatestVersion) :
    version < Document.nextVersion version ∨ version = Document.nextVersion version ∧
      Document.nextVersion version = Document.greatestVersion := by
  unfold Document.nextVersion
  split <;> omega

/-- A document that was not open is opened. -/
theorem Synchronised.tellOpened (h : Synchronised intact c) (d : Synced)
    (hclosed : c.documents.find? uri = none) (hd : d.version ≤ Document.greatestVersion)
    {documents : Table Synced} (hsorted : documents.Sorted)
    (hfind : ∀ other, documents.find? other =
      if other = uri then some d else c.documents.find? other) :
    Synchronised intact { c.tellOpened uri d with documents } := by
  refine h.tell (read?_didOpen uri d) hsorted ?_ ?_ ?_
  · intro other e he
    rw [hfind] at he
    split at he
    · cases he
      exact hd
    · exact h.versions other e he
  · intro other hother uri'
    rw [hfind]
    by_cases heq : uri' = uri
    · subst heq
      simp [hclosed, Option.filter, Ne.symm hother]
    · rw [if_neg heq]
  · intro known hmirrors
    have hnone : known.find? uri = none := by simp [hmirrors uri, hclosed]
    refine ⟨known.insert uri d, by simp [Knowledge.take, Table.has, hnone], fun uri' => ?_⟩
    rw [Table.find?_insert, hfind, hmirrors]
    split
    · simp [Option.filter]
    · rfl

/-- An open document changes. -/
theorem Synchronised.tellChanged (h : Synchronised intact c) {old : Synced}
    (hopen : c.documents.find? uri = some old) (text : String) :
    let d : Synced := { old with version := Document.nextVersion old.version, text }
    Synchronised intact { c.tellChanged uri d with documents := c.documents.insert uri d } := by
  intro d
  have hold := h.versions uri old hopen
  refine h.tell (read?_didChange uri d) (h.sorted.insert uri d) ?_ ?_ ?_
  · intro other e he
    rw [Table.find?_insert] at he
    split at he
    · cases he
      exact nextVersion_le hold
    · exact h.versions other e he
  · intro other hother uri'
    rw [Table.find?_insert]
    by_cases heq : uri' = uri
    · subst heq
      have hne : ¬ old.language = other := Ne.symm hother
      simp [hopen, Option.filter, d, hne]
    · rw [if_neg heq]
  · intro known hmirrors
    have hknown : known.find? uri = some old := by simp [hmirrors uri, hopen, Option.filter, d]
    refine ⟨known.insert uri d, ?_, fun uri' => ?_⟩
    · simp only [Knowledge.take, hknown]
      rw [if_pos (nextVersion_cases hold)]
    · rw [Table.find?_insert, Table.find?_insert, hmirrors]
      split
      · simp [Option.filter, d]
      · rfl

/-- An open document is saved. -/
theorem Synchronised.tellSaved (h : Synchronised intact c) {d : Synced}
    (hopen : c.documents.find? uri = some d) : Synchronised intact (c.tellSaved uri d) := by
  have hsame : c.tellSaved uri d = { c.tellSaved uri d with documents := c.documents } :=
    tell_with c c.documents _ _ _
  rw [hsame]
  refine h.tell (read?_didSave uri d) h.sorted h.versions (fun _ _ _ => rfl) ?_
  intro known hmirrors
  have hknown : known.find? uri = some d := by simp [hmirrors uri, hopen, Option.filter]
  exact ⟨known, by simp [Knowledge.take, Table.has, hknown], hmirrors⟩

/-- An open document is closed. -/
theorem Synchronised.tellClosed (h : Synchronised intact c) {d : Synced}
    (hopen : c.documents.find? uri = some d) : Synchronised intact
      { c.tellClosed uri d.language with documents := c.documents.erase uri } := by
  refine h.tell (read?_didClose uri) (h.sorted.erase uri) ?_ ?_ ?_
  · intro other e he
    rw [Table.find?_erase] at he
    split at he
    · cases he
    · exact h.versions other e he
  · intro other hother uri'
    rw [Table.find?_erase]
    by_cases heq : uri' = uri
    · subst heq
      simp [hopen, Option.filter, Ne.symm hother]
    · rw [if_neg heq]
  · intro known hmirrors
    have hknown : known.find? uri = some d := by simp [hmirrors uri, hopen, Option.filter]
    refine ⟨known.erase uri, by simp [Knowledge.take, Table.has, hknown], fun uri' => ?_⟩
    rw [Table.find?_erase, Table.find?_erase, hmirrors]
    split <;> rfl

theorem Synchronised.opened (h : Synchronised intact c) (uri language text : String) :
    Synchronised intact (c.opened uri language text) := by
  unfold Client.opened Client.track
  cases hfind : c.documents.find? uri with
  | none =>
      dsimp only
      rw [Client.tellOpened, ← Client.tell, tell_with]
      exact h.tellOpened _ hfind (by decide : (1 : Int) ≤ Document.greatestVersion)
        (h.sorted.insert uri _) (c.documents.find?_insert uri · _)
  | some old =>
      have hversion := nextVersion_le (h.versions uri old hfind)
      dsimp only
      split
      next heq =>
        -- An open document that is opened again counts as changed.
        subst heq
        rw [Client.tellChanged, ← Client.tell, tell_with]
        exact h.tellChanged hfind text
      next hne =>
        -- It is the same as closing the document first, and opening it then.
        have hopened := (h.tellClosed hfind).tellOpened
          ⟨language, Document.nextVersion old.version, text⟩ (Table.find?_erase_self _ _) hversion
          (h.sorted.insert uri _) fun other => by
            rw [Table.find?_insert, Table.find?_erase]
            split <;> rfl
        rw [Client.tellOpened, ← Client.tell, Client.tellClosed, ← Client.tell,
          tell_tell c _ (c.documents.erase uri)]
        exact hopened

theorem Synchronised.changed (h : Synchronised intact c) (uri text : String) :
    Synchronised intact (c.changed uri text) := by
  unfold Client.changed Client.retext
  cases hfind : c.documents.find? uri with
  | none => exact h
  | some old =>
      dsimp only
      rw [Client.tellChanged, ← Client.tell, tell_with]
      exact h.tellChanged hfind text

theorem Synchronised.saved (h : Synchronised intact c) (uri : String) :
    Synchronised intact (c.saved uri) := by
  unfold Client.saved
  cases hfind : c.documents.find? uri with
  | none => exact h
  | some d => exact h.tellSaved hfind

theorem Synchronised.closed (h : Synchronised intact c) (uri : String) :
    Synchronised intact (c.closed uri) := by
  unfold Client.closed
  cases hfind : c.documents.find? uri with
  | none => exact h
  | some d =>
      have hsame : (c.tellClosed uri d.language).documents = c.documents := tell_documents
      simp only [hsame]
      exact h.tellClosed hfind

end Documents

/-! ## Servers that come and go -/

theorem get_modify_in_table (h : Synchronised intact c) {language : String} {id : ServerId}
    (hid : (language, id) ∈ c.servers) (change : Server → Server) :
    (server id).get ((server id).modify change c) = change ((server id).get c) :=
  Client.get_modify (h.valid _ hid).1 change

/-- What happens to a server from outside. -/
theorem Synchronised.incident (h : Synchronised intact c) {id : ServerId} {incident : Incident}
    (hintact : intact id → incident ≠ .unwritable) :
    Synchronised intact ((server id).modify incident.change c) := by
  refine h.touches (c.touches_modify (List.mem_singleton_self id) incident.change) ?_
  intro other hother language hmem
  rw [List.mem_singleton.mp hother] at hmem ⊢
  rw [get_modify_in_table h hmem]
  refine ⟨incident_language incident _, fun hstanding => hstanding.incident incident,
    fun hyes hwritable => ?_⟩
  cases incident with
  | message m => simpa [Incident.change] using hwritable
  | finished => exact hwritable
  | unwritable => exact absurd rfl (hintact hyes)

theorem get_replay {id : ServerId} (hid : id < c.connections.length) :
    (server id).get (c.replay id) =
      (c.documents.filter fun entry =>
        entry.2.language == ((server id).get c).language).foldl Server.opening
          ((server id).get c) := by
  unfold Client.replay
  dsimp only
  generalize c.documents.filter _ = entries
  induction entries generalizing c with
  | nil => rfl
  | cons entry entries ih =>
      rw [List.foldl_cons, List.foldl_cons, ih (by simpa [Client.notify] using hid)]
      congr 1
      exact Client.get_modifyServer hid _

theorem touches_greeted (c : Client) (id : ServerId) : Touches [id] c (c.greeted id) := by
  have hid : id ∈ [id] := List.mem_singleton_self id
  have hcollected := c.touches_modify hid fun s => (s.collect 1 "initialize").2
  unfold Client.greeted
  dsimp only
  split
  · exact (hcollected.trans (Client.touches_modify _ hid _)).trans (Client.touches_replay _ id)
  · exact (hcollected.trans (Client.touches_modify _ hid _)).trans (Client.touches_modify _ hid _)

theorem get_greeted {id : ServerId} (hid : id < c.connections.length) :
    (server id).get (c.greeted id) = ((server id).get c).greeted c.documents := by
  have hmem : id ∈ [id] := List.mem_singleton_self id
  have hcollected := c.touches_modify hmem fun s => (s.collect 1 "initialize").2
  have hget := Client.get_modify hid fun s => (s.collect 1 "initialize").2
  unfold Client.greeted Server.greeted
  generalize (server id).modify (fun s => (s.collect 1 "initialize").2) c = collected at *
  have hlength : id < collected.connections.length := hcollected.length.symm ▸ hid
  dsimp only
  rcases hanswer : ((server id).get c).collect 1 "initialize" with ⟨_ | result, s⟩
  · rw [hanswer] at hget
    have hfailed : id < ((server id).modify Server.failed collected).connections.length :=
      (collected.touches_modify hmem Server.failed).length.symm ▸ hlength
    rw [Client.get_modify hfailed, Client.get_modify hlength, hget]
  · rw [hanswer] at hget
    have hwelcome := collected.touches_modify hmem fun s => s.welcome result
    dsimp only at hget ⊢
    rw [get_replay (hwelcome.length.symm ▸ hlength), Client.get_modify hlength, hget,
      hwelcome.documents, hcollected.documents, welcome_language]

/-- The end of a greeting. -/
theorem Synchronised.greeted (h : Synchronised intact c) (id : ServerId) :
    Synchronised intact (c.greeted id) := by
  refine h.touches (touches_greeted c id) ?_
  intro other hother language hmem
  rw [List.mem_singleton.mp hother] at hmem ⊢
  rw [get_greeted (h.valid _ hmem).1]
  exact ⟨greeted_language _ _, fun hstanding => hstanding.greeted h.sorted, fun _ hwritable =>
    (greeted_writable _ _).trans hwritable⟩

/-- A server that has just been asked to start. -/
theorem Synchronised.asked (h : Synchronised intact c) {language : String} {base : Client}
    (hbase : Attached language c base) :
    Synchronised intact (base.asked c.connections.length) := by
  obtain ⟨command, timeout, processId, hget⟩ := hbase.get
  have htouches := base.touches_asked c.connections.length
  have hservers := htouches.servers.trans hbase.servers
  have hdocuments := htouches.documents.trans hbase.documents
  have hlength := htouches.length.trans hbase.length
  have hnew : (server c.connections.length).get (base.asked c.connections.length) =
      (Server.connected language command timeout processId).starting.numbered "initialize"
        ((Server.connected language command timeout processId).initializeParams base.root) := by
    rw [Client.get_asked (hbase.length ▸ Nat.lt_succ_self _), hget]
  have hold (id : ServerId) (hid : id < c.connections.length) :
      (server id).get (base.asked c.connections.length) = (server id).get c := by
    rw [htouches.others id fun hin => Nat.ne_of_lt hid (List.mem_singleton.mp hin)]
    exact hbase.get_old hid
  refine ⟨?_, ?_, ?_, hdocuments.symm ▸ h.sorted, hdocuments.symm ▸ h.versions⟩
  · intro entry hentry
    rw [hservers] at hentry
    rw [hlength]
    -- It is either the new server, or one of before that is left as it was.
    rcases Table.mem_insert hentry with rfl | hentry
    · exact ⟨Nat.lt_succ_self _, by rw [hnew]; rfl⟩
    · obtain ⟨hid, hlanguage⟩ := h.valid entry hentry
      exact ⟨Nat.lt_succ_of_lt hid, (congrArg Server.language (hold _ hid)).trans hlanguage⟩
  · intro other id hid
    rw [hservers, Table.find?_insert] at hid
    rw [hdocuments]
    split at hid
    · cases hid
      rw [hnew]
      exact standing_asked _ _ _ _ _
    · rw [hold id (h.mem hid).1]
      exact h.standing other id hid
  · intro other id hid hintact
    rw [hservers, Table.find?_insert] at hid
    split at hid
    · cases hid
      rw [hnew]
      rfl
    · rw [hold id (h.mem hid).1]
      exact h.writable other id hid hintact

/-- A server that is forgotten. -/
theorem Synchronised.forget (h : Synchronised intact c) (language : String) :
    Synchronised intact (c.forget language).2 := by
  refine ⟨?_, ?_, ?_, h.sorted, h.versions⟩
  · intro entry hentry
    exact h.valid entry (Table.mem_erase.mp hentry).1
  · intro other id hid
    rw [Client.forget, Table.find?_erase] at hid
    split at hid
    · cases hid
    · exact h.standing other id hid
  · intro other id hid
    rw [Client.forget, Table.find?_erase] at hid
    split at hid
    · cases hid
    · exact h.writable other id hid

theorem Synchronised.forgetAll (h : Synchronised intact c) : Synchronised intact c.forgetAll.2 := by
  refine ⟨?_, ?_, ?_, h.sorted, h.versions⟩
  · intro entry hentry
    cases hentry
  · intro other id hid
    cases hid
  · intro other id hid
    cases hid

theorem touches_killAll (c : Client) (ids : List ServerId) : Touches ids c (c.killAll ids) := by
  suffices h : ∀ before : List ServerId, (∀ id ∈ before, id ∈ ids) →
      Touches ids c (c.killAll before) from h ids fun _ => id
  intro before hbefore
  induction before generalizing c with
  | nil => exact .refl c
  | cons id before ih =>
      obtain ⟨hid, hbefore⟩ := List.forall_mem_cons.mp hbefore
      exact (c.touches_modify hid Server.killed).trans (ih _ hbefore)

/-- The end of all servers and all documents at once. -/
theorem Synchronised.forced (c : Client) (intact : ServerId → Prop) :
    Synchronised intact c.forced := by
  have hservers : c.forced.servers = [] := (touches_killAll c.forgetAll.2 c.forgetAll.1).servers
  refine ⟨?_, ?_, ?_, Table.sorted_nil, ?_⟩
  · intro entry hentry
    rw [hservers] at hentry
    cases hentry
  · intro other id hid
    rw [hservers] at hid
    cases hid
  · intro other id hid
    rw [hservers] at hid
    cases hid
  · intro uri d hd
    cases hd

/-! ## Calls under way -/

/-- The server has been in the table, and never will be again. -/
def Retired (c : Client) (id : ServerId) : Prop :=
  id < c.connections.length ∧ ∀ language, (language, id) ∉ c.servers

/-- No server comes into the table but new ones. -/
structure Evolves (c c' : Client) : Prop where
  length : c.connections.length ≤ c'.connections.length
  servers : ∀ entry ∈ c'.servers, entry ∈ c.servers ∨ c.connections.length ≤ entry.2

theorem Evolves.retired (h : Evolves c c') {id : ServerId} (hid : Retired c id) :
    Retired c' id := by
  refine ⟨Nat.lt_of_lt_of_le hid.1 h.length, fun language hmem => ?_⟩
  rcases h.servers _ hmem with hmem | hnew
  · exact hid.2 language hmem
  · exact Nat.not_le.mpr hid.1 hnew

theorem Evolves.trans {c₁ c₂ c₃ : Client} (h : Evolves c₁ c₂) (h' : Evolves c₂ c₃) :
    Evolves c₁ c₃ := by
  refine ⟨Nat.le_trans h.length h'.length, fun entry hentry => ?_⟩
  rcases h'.servers entry hentry with hentry | hnew
  · exact h.servers entry hentry
  · exact .inr (Nat.le_trans h.length hnew)

theorem Evolves.of_eq (hservers : c'.servers = c.servers)
    (hlength : c'.connections.length = c.connections.length) : Evolves c c' :=
  ⟨Nat.le_of_eq hlength.symm, fun _ hentry => .inl (hservers ▸ hentry)⟩

theorem Evolves.of_touches {ids : List ServerId} (h : Touches ids c c') : Evolves c c' :=
  .of_eq h.servers h.length

theorem evolves_tell (c : Client) (language method : String) (params : Json) :
    Evolves c (c.tell language method params) := .of_eq tell_servers tell_length

theorem evolves_opened (c : Client) (uri language text : String) :
    Evolves c (c.opened uri language text) := by
  have hdocuments (documents : Table Synced) : Evolves c { c with documents } := .of_eq rfl rfl
  unfold Client.opened Client.track
  cases c.documents.find? uri with
  | none => exact (hdocuments _).trans (evolves_tell _ _ _ _)
  | some old =>
      dsimp only
      split
      · exact (hdocuments _).trans (evolves_tell _ _ _ _)
      · exact ((hdocuments _).trans (evolves_tell _ _ _ _)).trans (evolves_tell _ _ _ _)

theorem evolves_changed (c : Client) (uri text : String) : Evolves c (c.changed uri text) := by
  have hdocuments (documents : Table Synced) : Evolves c { c with documents } := .of_eq rfl rfl
  unfold Client.changed Client.retext
  cases c.documents.find? uri with
  | none => exact .of_eq rfl rfl
  | some old => exact (hdocuments _).trans (evolves_tell _ _ _ _)

theorem evolves_saved (c : Client) (uri : String) : Evolves c (c.saved uri) := by
  unfold Client.saved
  cases c.documents.find? uri with
  | none => exact .of_eq rfl rfl
  | some d => exact evolves_tell _ _ _ _

theorem evolves_closed (c : Client) (uri : String) : Evolves c (c.closed uri) := by
  unfold Client.closed
  cases c.documents.find? uri with
  | none => exact .of_eq rfl rfl
  | some d => exact (evolves_tell c d.language _ _).trans (.of_eq rfl rfl)

theorem evolves_forced (c : Client) : Evolves c c.forced := by
  have htouches := touches_killAll c.forgetAll.2 c.forgetAll.1
  refine ⟨Nat.le_of_eq htouches.length.symm, fun entry hentry => ?_⟩
  rw [show c.forced.servers = [] from htouches.servers] at hentry
  cases hentry

theorem evolves_asked {language : String} {base : Client} (h : Attached language c base) :
    Evolves c (base.asked c.connections.length) := by
  have htouches := base.touches_asked c.connections.length
  refine ⟨?_, fun entry hentry => ?_⟩
  · rw [htouches.length, h.length]
    exact Nat.le_succ _
  · rw [htouches.servers, h.servers] at hentry
    exact (Table.mem_insert hentry).symm.imp_right fun heq => Nat.le_of_eq (by rw [heq])

theorem evolves_forget (c : Client) (language : String) : Evolves c (c.forget language).2 :=
  ⟨Nat.le_refl _, fun _ hentry => .inl (Table.mem_erase.mp hentry).1⟩

theorem evolves_forgetAll (c : Client) : Evolves c c.forgetAll.2 :=
  ⟨Nat.le_refl _, fun _ hentry => by cases hentry⟩

/-- A server that is forgotten is retired. -/
theorem retired_forget (h : Synchronised intact c) (language : String) :
    ∀ id ∈ (c.forget language).1.toList, Retired (c.forget language).2 id := by
  intro id hid
  have hfind : c.servers.find? language = some id := by simpa [Client.forget] using hid
  obtain ⟨hlength, hlanguage⟩ := h.mem hfind
  refine ⟨hlength, fun other hmem => ?_⟩
  obtain ⟨hmem, hne⟩ := Table.mem_erase.mp hmem
  exact hne ((h.valid _ hmem).2.symm.trans hlanguage)

theorem retired_forgetAll (h : Synchronised intact c) :
    ∀ id ∈ c.forgetAll.1, Retired c.forgetAll.2 id := by
  intro id hid
  obtain ⟨language, hmem⟩ := Table.mem_values.mp hid
  exact ⟨(h.valid _ hmem).1, fun other hmem => by cases hmem⟩

/-- How far a call has come. -/
inductive Progress (c : Client) : ClientCall → Flow Client Unit → Prop
  /-- Its first turn is still to come. -/
  | fresh (call : ClientCall) : Progress c call call.flow
  /-- It waits for the answer of a server that it has asked to start. -/
  | greeting {call : ClientCall} {id : ServerId} {ready limit next}
      (hid : id < c.connections.length)
      (hnext : ∀ met c, (next met).stretch c = ⟨c.greeted id, .done (), []⟩) :
      Progress c call (.await ready limit next)
  /-- It touches only servers that are retired, or nothing at all. -/
  | leaving {call : ClientCall} {ids : List ServerId} {rest : Flow Client Unit}
      (hids : ∀ id ∈ ids, Retired c id) (hrest : rest.Within (Touches ids)) :
      Progress c call rest

theorem progress_done (c : Client) (call : ClientCall) : Progress c call (.done ()) := by
  have hnone : ∀ id ∈ ([] : List ServerId), Retired c id := fun _ hid => by cases hid
  exact .leaving hnone trivial

/-- What others do does not set a call back. -/
theorem Progress.mono {call : ClientCall} {rest : Flow Client Unit} (h : Progress c call rest)
    (hevolves : Evolves c c') : Progress c' call rest := by
  cases h with
  | fresh => exact .fresh call
  | greeting hid hnext => exact .greeting (Nat.lt_of_lt_of_le hid hevolves.length) hnext
  | leaving hids hrest => exact .leaving (fun id hid => hevolves.retired (hids id hid)) hrest

/-- What a turn leaves behind. -/
structure Advanced (intact : ServerId → Prop) (c : Client) (call : ClientCall)
    (r : Flow.Stretch Client Unit) : Prop where
  synchronised : Synchronised intact r.state
  evolves : Evolves c r.state
  rest : Progress r.state call r.rest
  started : ∀ child ∈ r.started, Progress r.state call (.ofStrand child)

theorem advanced_done {call : ClientCall} (h : Synchronised intact c') (hevolves : Evolves c c') :
    Advanced intact c call ⟨c', .done (), []⟩ :=
  ⟨h, hevolves, progress_done c' call, fun _ hchild => absurd hchild List.not_mem_nil⟩

/-- A turn that touches only retired servers. -/
theorem advanced_confined {call : ClientCall} {ids : List ServerId} {r : Flow.Stretch Client Unit}
    (h : Synchronised intact c') (hevolves : Evolves c c') (hids : ∀ id ∈ ids, Retired c' id)
    (hconfined : Confined ids c' r) : Advanced intact c call r := by
  have hstate : Evolves c' r.state := .of_touches hconfined.state
  have hretired : ∀ id ∈ ids, Retired r.state id := fun id hid => hstate.retired (hids id hid)
  refine ⟨h.touches hconfined.state fun id hid language hmem => ?_, ⟨?_, fun entry hentry => ?_⟩,
    .leaving hretired hconfined.rest, fun child hchild =>
      .leaving hretired (Flow.Within.ofStrand (hconfined.started child hchild))⟩
  · -- What is touched is in the table no more, so nothing is claimed of it.
    exact absurd hmem ((hids id hid).2 language)
  · exact Nat.le_trans hevolves.length hstate.length
  · exact hevolves.servers entry (hconfined.state.servers ▸ hentry)

/-- The first turn of a call that starts a server. -/
theorem advanced_started {call : ClientCall} (h : Synchronised intact c)
    {r : Flow.Stretch Client Unit} (hr : Started c r) : Advanced intact c call r := by
  cases hr with
  | unneeded => exact advanced_done h (.of_eq rfl rfl)
  | waiting hbase hnext =>
      have hevolves := evolves_asked hbase
      refine ⟨h.asked hbase, hevolves, .greeting ?_ hnext, fun child hchild => ?_⟩
      · rw [(Client.touches_asked _ _).length, hbase.length]
        exact Nat.lt_succ_self _
      · exact absurd hchild List.not_mem_nil

/-- The first turn of every call keeps the client in step. -/
theorem advanced_fresh (h : Synchronised intact c) (call : ClientCall) :
    Advanced intact c call ((call.flow.wake c).stretch c) := by
  cases call with
  | didOpen uri language text =>
      have hstretch := c.stretch_didOpen uri language text
      exact hstretch ▸ advanced_done (h.opened uri language text) (evolves_opened c _ _ _)
  | didChange uri text =>
      have hstretch := c.stretch_didChange uri text
      exact hstretch ▸ advanced_done (h.changed uri text) (evolves_changed c _ _)
  | didSave uri =>
      have hstretch := c.stretch_didSave uri
      exact hstretch ▸ advanced_done (h.saved uri) (evolves_saved c _)
  | didClose uri =>
      have hstretch := c.stretch_didClose uri
      exact hstretch ▸ advanced_done (h.closed uri) (evolves_closed c _)
  | connect language command line => exact advanced_started h (c.started_connect _ _ _)
  | start language => exact advanced_started h (c.started_start _)
  | shutdownServer language =>
      exact advanced_confined (h.forget language) (evolves_forget c language)
        (retired_forget h language) (c.confined_shutdownServer language)
  | shutdownAll =>
      exact advanced_confined h.forgetAll (evolves_forgetAll c) (retired_forgetAll h)
        c.confined_shutdownAll
  | forceShutdown =>
      exact c.stretch_forceShutdown ▸ advanced_done (.forced c intact) (evolves_forced c)

/-- Every turn of every call keeps the client in step. -/
theorem Progress.turn {call : ClientCall} {rest : Flow Client Unit} (h : Synchronised intact c)
    (hprogress : Progress c call rest) :
    Advanced intact c call ((rest.wake c).stretch c) := by
  cases hprogress with
  | fresh => exact advanced_fresh h call
  | greeting hid hnext =>
      rw [Flow.wake, hnext]
      exact advanced_done (h.greeted _) (.of_touches (touches_greeted c _))
  | leaving hids hrest =>
      exact advanced_confined h (.of_eq rfl rfl) hids (c.confined_of_within _ (hrest.wake c))

/-! ## Runs -/

/-- The client is in step with its servers, and every call has come as far as it can. -/
structure InStep (intact : ServerId → Prop) (p : Pool ClientCall Client Unit) : Prop where
  synchronised : Synchronised intact p.state
  progress : ∀ t ∈ p.tasks, Progress p.state t.call t.rest

/-- A move by which writing does not fail for any server of which it is said that it never does. -/
def Spares (intact : ServerId → Prop) (move : Move ClientCall (ServerId × Incident)) : Prop :=
  ∀ id, move = .outside (id, .unwritable) → ¬ intact id

theorem InStep.step {p p' : Pool ClientCall Client Unit}
    {move : Move ClientCall (ServerId × Incident)} (hmove : Spares intact move)
    (hstep : clientCalls.Stepped p move p') (h : InStep intact p) : InStep intact p' := by
  cases hstep with
  | idle => exact h
  | start call =>
      refine ⟨h.synchronised, fun t ht => ?_⟩
      rcases List.mem_append.mp ht with ht | ht
      · exact h.progress t ht
      · rw [List.mem_singleton.mp ht]
        exact .fresh call
  | turn hn hstretch =>
      subst hstretch
      have hadvanced := (h.progress _ (List.mem_of_getElem? hn)).turn h.synchronised
      refine ⟨hadvanced.synchronised, fun t ht => ?_⟩
      rcases List.mem_append.mp ht with ht | ht
      · rcases List.mem_or_eq_of_mem_set ht with ht | rfl
        · exact (h.progress t ht).mono hadvanced.evolves
        · exact hadvanced.rest
      · obtain ⟨child, hchild, rfl⟩ := List.mem_map.mp ht
        exact hadvanced.started child hchild
  | pass time => exact ⟨h.synchronised, h.progress⟩
  | outside event =>
      obtain ⟨id, incident⟩ := event
      have hevolves : Evolves p.state ((server id).modify incident.change p.state) :=
        .of_touches (p.state.touches_modify (List.mem_singleton_self id) _)
      refine ⟨h.synchronised.incident fun hyes hbad => ?_, fun t ht =>
        (h.progress t ht).mono hevolves⟩
      have hbad : incident = .unwritable := hbad
      exact hmove id (by rw [hbad]) hyes

/-- A client for which nothing has been called yet. -/
def freshClient (settings : ServerSettings) (root : Option Path) (processId : Nat)
    (programs : List String) : Client :=
  { settings, root, processId, programs }

/-- A client after all that was called on it and happened to its servers. -/
def session (c : Client) (moves : List (Move ClientCall (ServerId × Incident))) : Client :=
  (clientCalls.run { state := c } moves).state

theorem synchronised_session (settings : ServerSettings) (root : Option Path) (processId : Nat)
    (programs : List String) {moves : List (Move ClientCall (ServerId × Incident))}
    (hmoves : ∀ move ∈ moves, Spares intact move) :
    Synchronised intact (session (freshClient settings root processId programs) moves) := by
  have hfresh : InStep intact { state := freshClient settings root processId programs } := by
    refine ⟨⟨?_, ?_, ?_, Table.sorted_nil, ?_⟩, ?_⟩
    · exact fun entry hentry => absurd hentry List.not_mem_nil
    · exact fun language id hid => by cases hid
    · exact fun language id hid => by cases hid
    · exact fun uri d hd => by cases hd
    · exact fun t ht => absurd ht List.not_mem_nil
  exact (System.run_invariant (fun _ _ _ => InStep.step) hfresh hmoves).synchronised

/-- In every session, what a ready server was told about documents fits together, and it knows
exactly the open documents of its language, with their versions and texts, unless writing to it has
failed. -/
theorem mirrored (settings : ServerSettings) (root : Option Path) (processId : Nat)
    (programs : List String) (moves : List (Move ClientCall (ServerId × Incident))) :
    let c := session (freshClient settings root processId programs) moves
    ∀ language id, c.servers.find? language = some id →
      ((server id).get c).state = .initialized →
      ∃ k, told ((server id).get c).queued = some k ∧
        ((∀ move ∈ moves, move ≠ .outside (id, .unwritable)) → ∃ known, k = .documents known ∧
          ∀ uri, known.find? uri =
            (c.documents.find? uri).filter fun d => d.language == language) := by
  intro c language id hserver hready
  let intact (id : ServerId) : Prop := ∀ move ∈ moves, move ≠ .outside (id, .unwritable)
  have hmoves : ∀ move ∈ moves, Spares intact move := fun move hmove id heq hintact =>
    hintact move hmove heq
  have h : Synchronised intact c := synchronised_session settings root processId programs hmoves
  cases h.standing language id hserver with
  | waiting hfirst hstate htold => exact absurd hready hstate
  | settled hpending hanswers hknown =>
      obtain ⟨k, hk, hall⟩ := hknown hready
      rw [(h.mem hserver).2] at hall
      exact ⟨k, hk, fun hintact => hall (h.writable language id hserver hintact)⟩

/-- A document that is opened while its server starts, and one of another language. -/
def startOfPython : List (Move ClientCall (ServerId × Incident)) :=
  [.start (.connect "python" { command := "pylsp" } 0), .turn 0,
    .start (.didOpen "file:///a.py" "python" "x = 1"), .turn 1,
    .start (.didOpen "file:///b.rs" "rust" ""), .turn 2,
    .outside (0, .message (response (.whole 1) .empty)), .turn 0,
    .start (.didChange "file:///a.py" "x = 2"), .turn 3]

/-- The server has been told of its document and of the change of it, and of nothing else. -/
theorem mirrored_startOfPython :
    ∃ known,
      told ((server 0).get (session (freshClient ⟨30000, []⟩ none 1 []) startOfPython)).queued =
        some (.documents known) ∧
      known.find? "file:///a.py" = some ⟨"python", 2, "x = 2"⟩ ∧
      known.find? "file:///b.rs" = none := by
  obtain ⟨k, htold, hall⟩ := mirrored ⟨30000, []⟩ none 1 [] startOfPython "python" 0
    (by decide +kernel) (by decide +kernel)
  obtain ⟨known, rfl, hmirrors⟩ := hall (by simp [startOfPython])
  exact ⟨known, htold, (hmirrors _).trans (by decide +kernel),
    (hmirrors _).trans (by decide +kernel)⟩

end EditorHost.Rpc
