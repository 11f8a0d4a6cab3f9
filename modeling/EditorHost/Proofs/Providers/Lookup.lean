import EditorHost.Proofs.Providers.Keys
import EditorHost.Registry

/-!
# Looking providers up

The registry files registrations under languages and apart, so that a look-up need not go through
all of them.  `lookup_eq` says that nothing is lost or gained by that: after any registrations and
removals, what a look-up finds is what matching the selector of every registration in force would
find, in the order of registration.

What is in force is said without the files of the registry, by `inForce`.  The files are tied to it
by the invariant `Filed`: under a key are exactly the registrations in force whose selector has it.
-/

namespace EditorHost

/-- The registration has a capability and is filed under a key. -/
def Registration.IsUnder (e : Registration) (capability : Capability) (key : SelectorKey) : Prop :=
  e.capability = capability ∧ e.selector.keys.Has key

namespace Registry

/-! ## Registrations and removals -/

/-- What can be done to a registry. -/
inductive Call where
  | register (capability : Capability) (selector : Selector) (provider : Callback)
      (extension : String) (triggers : List String)
  | unregister (id : RegistrationId)
  | unregisterExtension (extension : String)

/-- Does something to a registry. -/
def perform (r : Registry) : Call → Registry
  | .register capability selector provider extension triggers =>
    (r.register capability selector provider extension triggers).2
  | .unregister id => (r.unregister id).2
  | .unregisterExtension extension => (r.unregisterExtension extension).2

/-- The registry after some calls. -/
def after (calls : List Call) : Registry := calls.foldl perform {}

/-- How many registrations there have been, and which of them are in force, after another call. -/
def account : Nat × List Registration → Call → Nat × List Registration
  | (n, entries), .register capability selector provider extension triggers =>
    (n + 1, entries ++ [⟨n + 1, capability, selector, provider, extension, triggers⟩])
  | (n, entries), .unregister id => (n, entries.filter fun e => e.id != id)
  | (n, entries), .unregisterExtension extension =>
    (n, entries.filter fun e => e.extension != extension)

/-- The registrations in force after some calls, in the order of registration. -/
def inForce (calls : List Call) : List Registration := (calls.foldl account (0, [])).2

/-! ## Where registrations are filed -/

/-- The files of a registry hold the registrations in force and nothing else. -/
structure Filed (r : Registry) : Prop where
  ordered : r.live.Pairwise fun e later => e.id < later.id
  numbered : ∀ e ∈ r.live, e.id ≤ r.count
  byLanguage : ∀ capability text id, ((capability, text), id) ∈ r.byLanguage ↔
    ∃ e ∈ r.live, e.id = id ∧ e.IsUnder capability (.language text)
  byPattern : ∀ capability id, (capability, id) ∈ r.byPattern ↔
    ∃ e ∈ r.live, e.id = id ∧ e.IsUnder capability .apart

/-- Registrations in increasing order are known by their numbers. -/
theorem eq_of_id {entries : List Registration}
    (h : entries.Pairwise fun e later => e.id < later.id) {e other : Registration}
    (he : e ∈ entries) (hother : other ∈ entries) (hid : e.id = other.id) : e = other := by
  induction h with
  | nil => cases he
  | cons hfirst _ ih =>
      rw [List.mem_cons] at he hother
      rcases he with rfl | he
      · rcases hother with rfl | hother
        · rfl
        · exact absurd hid (Nat.ne_of_lt (hfirst other hother))
      · rcases hother with rfl | hother
        · exact absurd hid.symm (Nat.ne_of_lt (hfirst e he))
        · exact ih he hother

namespace Filed

variable {r : Registry} (h : r.Filed)
include h

theorem find?_of_mem {e : Registration} (he : e ∈ r.live) : r.find? e.id = some e := by
  cases hfind : r.find? e.id with
  | none => simpa using List.find?_eq_none.mp hfind e he
  | some found =>
      have hid : found.id = e.id := by simpa using List.find?_some hfind
      rw [eq_of_id h.ordered (List.mem_of_find?_eq_some hfind) he hid]

/-- A new registration is filed under the keys of its selector. -/
theorem register (capability : Capability) (selector : Selector) (provider : Callback)
    (extension : String) (triggers : List String) :
    (r.register capability selector provider extension triggers).2.Filed := by
  refine ⟨?_, ?_, ?_, ?_⟩
  · refine List.pairwise_append.mpr
      ⟨h.ordered, List.pairwise_singleton _ _, fun e he later hl => ?_⟩
    rw [List.mem_singleton.mp hl]
    exact Nat.lt_succ_of_le (h.numbered e he)
  · intro e he
    rcases List.mem_append.mp he with he | he
    · exact Nat.le_succ_of_le (h.numbered e he)
    · rw [List.mem_singleton.mp he]
      exact Nat.le_refl _
  · intro other text id
    simp only [Registry.register, List.mem_append, List.mem_map, h.byLanguage, Registration.IsUnder,
      SelectorKeys.Has, Prod.mk.injEq, List.mem_singleton, or_and_right, exists_or, exists_eq_left]
    refine or_congr_right ⟨?_, ?_⟩
    · rintro ⟨_, hmem, ⟨rfl, rfl⟩, rfl⟩
      exact ⟨rfl, rfl, hmem⟩
    · rintro ⟨rfl, rfl, hmem⟩
      exact ⟨text, hmem, ⟨rfl, rfl⟩, rfl⟩
  · intro other id
    simp only [Registry.register, List.mem_append, Registration.IsUnder, List.mem_singleton,
      or_and_right, exists_or, exists_eq_left]
    cases hkeys : selector.keys.hasPatterns with
    | false => simp [h.byPattern, SelectorKeys.Has, hkeys, Registration.IsUnder]
    | true =>
        simp only [if_true, List.mem_append, h.byPattern, List.mem_singleton, Prod.mk.injEq,
          SelectorKeys.Has, hkeys, and_true, Registration.IsUnder]
        refine or_congr_right ⟨?_, ?_⟩
        · rintro ⟨rfl, rfl⟩
          exact ⟨rfl, rfl⟩
        · rintro ⟨rfl, rfl⟩
          exact ⟨rfl, rfl⟩

/-- A removed registration is taken out of the files where it is, and no other is. -/
theorem unregister (id : RegistrationId) : (r.unregister id).2.Filed := by
  unfold Registry.unregister
  cases hfind : r.find? id with
  | none => exact h
  | some gone =>
      have hgone : gone ∈ r.live := List.mem_of_find?_eq_some hfind
      have hid : gone.id = id := by simpa using List.find?_some hfind
      have hsame {e : Registration} (he : e ∈ r.live) (heid : e.id = id) : e = gone :=
        eq_of_id h.ordered he hgone (heid.trans hid.symm)
      refine ⟨h.ordered.filter _, fun e he => h.numbered e (List.mem_filter.mp he).1, ?_, ?_⟩
      · intro capability text number
        simp only [List.mem_filter, h.byLanguage]
        constructor
        · rintro ⟨⟨e, he, rfl, hunder⟩, hkept⟩
          refine ⟨e, ⟨he, ?_⟩, rfl, hunder⟩
          -- Otherwise it is the one that is removed, and its keys are those that are taken out.
          rw [bne_iff_ne]
          intro heid
          obtain ⟨rfl, htext⟩ := hunder
          cases hsame he heid
          have hout : text ∉ gone.selector.keys.languages := by simpa [heid] using hkept
          exact hout htext
        · rintro ⟨e, ⟨he, hne⟩, rfl, hunder⟩
          exact ⟨⟨e, he, rfl, hunder⟩, by simp [bne_iff_ne.mp hne]⟩
      · intro capability number
        simp only [List.mem_filter, h.byPattern]
        constructor
        · rintro ⟨⟨e, he, rfl, hunder⟩, hkept⟩
          refine ⟨e, ⟨he, ?_⟩, rfl, hunder⟩
          rw [bne_iff_ne]
          intro heid
          cases hsame he heid
          simp [heid, hunder.1] at hkept
        · rintro ⟨e, ⟨he, hne⟩, rfl, hunder⟩
          exact ⟨⟨e, he, rfl, hunder⟩, by simp [bne_iff_ne.mp hne]⟩

/-! ## Look-ups -/

/-- A registration in force is filed under a key exactly when it has it. -/
theorem mem_byLanguage {e : Registration} (he : e ∈ r.live) (capability : Capability)
    (text : String) :
    ((capability, text), e.id) ∈ r.byLanguage ↔ e.IsUnder capability (.language text) := by
  rw [h.byLanguage]
  constructor
  · rintro ⟨other, hother, hid, hunder⟩
    exact eq_of_id h.ordered hother he hid ▸ hunder
  · exact fun hunder => ⟨e, he, rfl, hunder⟩

theorem mem_byPattern {e : Registration} (he : e ∈ r.live) (capability : Capability) :
    (capability, e.id) ∈ r.byPattern ↔ e.IsUnder capability .apart := by
  rw [h.byPattern]
  constructor
  · rintro ⟨other, hother, hid, hunder⟩
    exact eq_of_id h.ordered hother he hid ▸ hunder
  · exact fun hunder => ⟨e, he, rfl, hunder⟩

theorem mem_idsForLanguage {e : Registration} (he : e ∈ r.live) (capability : Capability)
    (language : String) :
    e.id ∈ r.idsForLanguage capability language ↔
      e.capability = capability ∧ e.selector.matchesLanguage language = true := by
  have hfiled (text : String) : e.id ∈ r.filedUnder capability text ↔
      e.IsUnder capability (.language text) := by
    rw [← h.mem_byLanguage he]
    simp [filedUnder]
  rw [idsForLanguage, List.mem_append, hfiled, hfiled, Selector.matchesLanguage_iff, or_comm]
  exact and_or_left.symm

/-- A look-up by language finds what matches the language. -/
theorem forLanguage_eq (capability : Capability) (language : String) :
    r.forLanguage capability language = r.live.filter fun e =>
      e.capability == capability && e.selector.matchesLanguage language := by
  refine List.filter_congr fun e he => Bool.eq_iff_iff.mpr ?_
  simp [h.mem_idsForLanguage he]

/-- A look-up by document finds what matches the document.  What matches the language is not
matched again, because it matches every document of the language. -/
theorem forDocument_eq (capability : Capability) (uri language : String) :
    r.forDocument capability uri language = r.live.filter fun e =>
      e.capability == capability && e.selector.matchesDocument uri language := by
  refine List.filter_congr fun e he => Bool.eq_iff_iff.mpr ?_
  have hfiled : e.id ∈ (r.forLanguage capability language).map Registration.id ↔
      e.capability = capability ∧ e.selector.matchesLanguage language = true := by
    rw [← h.mem_idsForLanguage he, forLanguage, resolve, List.mem_map]
    constructor
    · rintro ⟨other, hother, hid⟩
      rw [List.mem_filter] at hother
      simpa [hid] using hother.2
    · exact fun hids => ⟨e, List.mem_filter.mpr ⟨he, by simpa using hids⟩, rfl⟩
  have hapart : e.id ∈ (r.byPattern.filter fun entry => entry.1 == capability).map Prod.snd ↔
      e.IsUnder capability .apart := by
    rw [← h.mem_byPattern he]
    simp
  have hmatching : r.isMatching uri language e.id = e.selector.matchesDocument uri language := by
    simp [isMatching, h.find?_of_mem he]
  rw [List.contains_iff_mem, List.mem_append, hfiled, List.mem_filter, hapart, hmatching,
    Selector.matchesLanguage_iff, Bool.and_eq_true, beq_iff_eq]
  constructor
  · rintro (⟨hcapability, hkey | hkey⟩ | ⟨hunder, hmatch⟩)
    · exact ⟨hcapability, Selector.matchesDocument_of_has hkey (.inl rfl)⟩
    · exact ⟨hcapability, Selector.matchesDocument_of_has hkey (.inr rfl)⟩
    · exact ⟨hunder.1, hmatch⟩
  · rintro ⟨hcapability, hmatch⟩
    rcases Selector.has_of_matchesDocument hmatch with hkey | hkey | hkey
    · exact .inl ⟨hcapability, .inl hkey⟩
    · exact .inl ⟨hcapability, .inr hkey⟩
    · exact .inr ⟨⟨hcapability, hkey⟩, hmatch⟩

end Filed

/-! ## Removals -/

theorem live_unregister (r : Registry) (id : RegistrationId) :
    (r.unregister id).2.live = r.live.filter fun e => e.id != id := by
  unfold unregister
  cases hfind : r.find? id with
  | none =>
      refine (List.filter_eq_self.mpr fun e he => ?_).symm
      simpa using List.find?_eq_none.mp hfind e he
  | some gone => rfl

theorem count_unregister (r : Registry) (id : RegistrationId) :
    (r.unregister id).2.count = r.count := by
  unfold unregister
  split <;> rfl

/-- Removes registrations, one after another. -/
def unregisterAll (r : Registry) (ids : List RegistrationId) : Registry :=
  ids.foldl (fun r id => (r.unregister id).2) r

theorem unregisterExtension_eq (r : Registry) (extension : String) :
    (r.unregisterExtension extension).2 =
      r.unregisterAll ((r.live.filter fun e => e.extension == extension).map Registration.id) := by
  unfold unregisterExtension unregisterAll
  generalize (r.live.filter fun e => e.extension == extension).map Registration.id = ids
  generalize (0 : Nat) = count
  induction ids generalizing r count with
  | nil => rfl
  | cons id ids ih => exact ih _ _

theorem live_unregisterAll (r : Registry) (ids : List RegistrationId) :
    (r.unregisterAll ids).live = r.live.filter fun e => !ids.contains e.id := by
  induction ids generalizing r with
  | nil => exact (List.filter_eq_self.mpr fun _ _ => rfl).symm
  | cons id ids ih =>
      rw [unregisterAll, List.foldl_cons, ← unregisterAll, ih, live_unregister, List.filter_filter]
      congr 1
      funext e
      rw [List.contains_cons, Bool.not_or, Bool.and_comm]
      rfl

theorem count_unregisterAll (r : Registry) (ids : List RegistrationId) :
    (r.unregisterAll ids).count = r.count := by
  induction ids generalizing r with
  | nil => rfl
  | cons id ids ih => exact (ih _).trans (count_unregister r id)

theorem Filed.unregisterAll {r : Registry} (h : r.Filed) (ids : List RegistrationId) :
    (r.unregisterAll ids).Filed := by
  induction ids generalizing r with
  | nil => exact h
  | cons id ids ih => exact ih (h.unregister id)

/-- With an extension exactly its registrations are removed. -/
theorem Filed.live_unregisterExtension {r : Registry} (h : r.Filed) (extension : String) :
    (r.unregisterExtension extension).2.live = r.live.filter fun e => e.extension != extension := by
  rw [unregisterExtension_eq, live_unregisterAll]
  refine List.filter_congr fun e he => ?_
  rw [bne, Bool.not_inj_iff, Bool.eq_iff_iff, List.contains_iff_mem, List.mem_map]
  constructor
  · rintro ⟨other, hother, hid⟩
    rw [List.mem_filter] at hother
    exact eq_of_id h.ordered hother.1 he hid ▸ hother.2
  · exact fun hown => ⟨e, List.mem_filter.mpr ⟨he, hown⟩, rfl⟩

/-! ## Any calls -/

/-- The registry is filed, and its registrations are those of an account. -/
structure Accounted (r : Registry) (book : Nat × List Registration) : Prop where
  filed : r.Filed
  count : r.count = book.1
  live : r.live = book.2

theorem Accounted.perform {r : Registry} {book : Nat × List Registration} (h : r.Accounted book)
    (call : Call) : (r.perform call).Accounted (account book call) := by
  obtain ⟨hfiled, hcount, hlive⟩ := h
  cases call with
  | register capability selector provider extension triggers =>
      exact ⟨hfiled.register _ _ _ _ _, congrArg (· + 1) hcount, by
        simp [Registry.perform, Registry.register, account, hcount, hlive]⟩
  | unregister id =>
      exact ⟨hfiled.unregister id, (count_unregister r id).trans hcount, by
        rw [account, ← hlive]
        exact live_unregister r id⟩
  | unregisterExtension extension =>
      refine ⟨?_, ?_, ?_⟩
      · rw [Registry.perform, unregisterExtension_eq]
        exact hfiled.unregisterAll _
      · rw [Registry.perform, unregisterExtension_eq, count_unregisterAll]
        exact hcount
      · rw [account, ← hlive]
        exact hfiled.live_unregisterExtension extension

theorem accounted_after (calls : List Call) :
    (after calls).Accounted (calls.foldl account (0, [])) := by
  suffices hall : ∀ (r : Registry) (book : Nat × List Registration), r.Accounted book →
      (calls.foldl Registry.perform r).Accounted (calls.foldl account book) by
    exact hall {} (0, []) ⟨⟨.nil, by simp, by simp, by simp⟩, rfl, rfl⟩
  induction calls with
  | nil => exact fun _ _ h => h
  | cons call calls ih => exact fun r book h => ih _ _ (h.perform call)

/-- After any calls, a look-up finds exactly the registrations in force whose selector matches, each
once and in the order of registration. -/
theorem lookup_eq (calls : List Call) :
    (∀ capability language, (after calls).forLanguage capability language =
        (inForce calls).filter fun e =>
          e.capability == capability && e.selector.matchesLanguage language) ∧
      (∀ capability uri language, (after calls).forDocument capability uri language =
        (inForce calls).filter fun e =>
          e.capability == capability && e.selector.matchesDocument uri language) ∧
      (inForce calls).Pairwise fun e later => e.id < later.id := by
  obtain ⟨hfiled, -, hlive⟩ := accounted_after calls
  rw [inForce, ← hlive]
  exact ⟨hfiled.forLanguage_eq, hfiled.forDocument_eq, hfiled.ordered⟩

end Registry

end EditorHost
