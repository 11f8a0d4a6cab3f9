import EditorHost.Selector

/-!
# What a selector is filed under

The keys of a selector stand for its parts: a part that names a language is filed under it, and a
part that looks at the document is filed apart.  Both directions of what a look-up relies on are
proved here.  Whoever is filed under the language of a document, or under `*`, matches the document
(`matchesDocument_of_has`); and whoever matches a document is filed in one of the three places where
a look-up searches (`has_of_matchesDocument`).
-/

namespace EditorHost

/-- What a part of a selector is filed under. -/
inductive SelectorKey where
  | language (text : String)
  /-- The part looks at the document, and is filed apart. -/
  | apart
  deriving DecidableEq

/-- Whether something is among the keys. -/
def SelectorKeys.Has (keys : SelectorKeys) : SelectorKey → Prop
  | .language text => text ∈ keys.languages
  | .apart => keys.hasPatterns = true

namespace Selector

/-- What holds of languages and filters, and of a list if it holds of its members, holds of every
selector. -/
theorem induct {P : Selector → Prop} (language : ∀ text, P (.language text))
    (filter : ∀ f, P (.filter f)) (many : ∀ selectors, (∀ s ∈ selectors, P s) → P (.many selectors))
    (s : Selector) : P s := by
  refine Selector.rec (motive_1 := P) (motive_2 := fun selectors => ∀ s ∈ selectors, P s)
    language filter many (fun s hs => absurd hs List.not_mem_nil) ?_ s
  intro s rest hs hrest other hother
  rcases List.mem_cons.mp hother with rfl | hother
  · exact hs
  · exact hrest other hother

/-! ## Keys -/

theorem mem_insertSorted {text other : String} {sorted : List String} :
    other ∈ insertSorted text sorted ↔ other = text ∨ other ∈ sorted := by
  induction sorted with
  | nil => simp [insertSorted]
  | cons t rest ih =>
      unfold insertSorted
      split
      next heq => simp [heq]
      · split
        · simp
        · rw [List.mem_cons, ih, List.mem_cons]
          exact or_left_comm

theorem has_language {keys : SelectorKeys} {text : String} {key : SelectorKey} :
    (Keys.language keys text).Has key ↔ keys.Has key ∨ key = .language text := by
  cases key with
  | language other => simp [SelectorKeys.Has, Keys.language, mem_insertSorted, or_comm]
  | apart => simp [SelectorKeys.Has, Keys.language]

theorem has_pattern {keys : SelectorKeys} {key : SelectorKey} :
    (Keys.pattern keys).Has key ↔ keys.Has key ∨ key = .apart := by
  cases key with
  | language other => simp [SelectorKeys.Has, Keys.pattern]
  | apart => simp [SelectorKeys.Has, Keys.pattern]

theorem not_has_none (key : SelectorKey) : ¬ ({} : SelectorKeys).Has key := by
  cases key <;> simp [SelectorKeys.Has]

/-- What the text of a selector is filed under. -/
def keyOfText (text : String) : SelectorKey := if isGlob text then .apart else .language text

/-- What a filter is filed under. -/
def keyOfFilter : DocumentFilter → SelectorKey
  | ⟨some name, none, none⟩ => .language name
  | _ => .apart

theorem has_addKeys_text {keys : SelectorKeys} {text : String} {key : SelectorKey} :
    (addKeys keys (.language text)).Has key ↔ keys.Has key ∨ key = keyOfText text := by
  unfold addKeys keyOfText
  split
  · exact has_pattern
  · exact has_language

theorem has_addKeys_filter {keys : SelectorKeys} {f : DocumentFilter} {key : SelectorKey} :
    (addKeys keys (.filter f)).Has key ↔ keys.Has key ∨ key = keyOfFilter f := by
  unfold addKeys
  split
  · exact has_language
  next hother =>
    rw [keyOfFilter.eq_2 f hother]
    exact has_pattern

/-- The keys of a selector are added to those that are there. -/
theorem has_addKeys {keys : SelectorKeys} {key : SelectorKey} (s : Selector) :
    (addKeys keys s).Has key ↔ keys.Has key ∨ s.keys.Has key := by
  induction s using induct generalizing keys with
  | language text => simp [Selector.keys, has_addKeys_text, not_has_none]
  | filter f => simp [Selector.keys, has_addKeys_filter, not_has_none]
  | many selectors ih =>
      suffices hall : ∀ (rest : List Selector), (∀ s ∈ rest, s ∈ selectors) →
          ∀ keys : SelectorKeys, (addAllKeys keys rest).Has key ↔
            keys.Has key ∨ ∃ s ∈ rest, s.keys.Has key by
        have hself : ∀ s ∈ selectors, s ∈ selectors := fun _ => id
        simp only [Selector.keys, addKeys, hall selectors hself, not_has_none, false_or]
      intro rest hrest
      induction rest with
      | nil => simp [addAllKeys]
      | cons s rest ihrest =>
          intro keys
          rw [addAllKeys, ihrest (fun other hother => hrest other (List.mem_cons_of_mem _ hother)),
            ih s (hrest s List.mem_cons_self)]
          simp [or_assoc]

theorem has_keys_text {text : String} {key : SelectorKey} :
    (Selector.language text).keys.Has key ↔ key = keyOfText text := by
  simp [Selector.keys, has_addKeys_text, not_has_none]

theorem has_keys_filter {f : DocumentFilter} {key : SelectorKey} :
    (Selector.filter f).keys.Has key ↔ key = keyOfFilter f := by
  simp [Selector.keys, has_addKeys_filter, not_has_none]

theorem has_keys_many {selectors : List Selector} {key : SelectorKey} :
    (Selector.many selectors).keys.Has key ↔ ∃ s ∈ selectors, s.keys.Has key := by
  suffices hall : ∀ keys : SelectorKeys, (addAllKeys keys selectors).Has key ↔
      keys.Has key ∨ ∃ s ∈ selectors, s.keys.Has key by
    simp [Selector.keys, addKeys, hall, not_has_none]
  induction selectors with
  | nil => simp [addAllKeys]
  | cons s rest ih =>
      intro keys
      rw [addAllKeys, ih, has_addKeys]
      simp [or_assoc]

/-- A selector matches every document of a language when it is filed under it, or under `*`. -/
theorem matchesLanguage_iff {s : Selector} {language : String} :
    s.matchesLanguage language = true ↔
      s.keys.Has (.language wildcard) ∨ s.keys.Has (.language language) := by
  simp [matchesLanguage, SelectorKeys.Has]

/-! ## Documents -/

theorem matchesDocument_many (uri language : String) (selectors : List Selector) :
    (Selector.many selectors).matchesDocument uri language =
      selectors.any (matchesDocument uri language) := by
  rw [matchesDocument]
  induction selectors with
  | nil => rfl
  | cons s rest ih => rw [matchesAny, List.any_cons, ih]

/-- What is filed under a language, or under `*`, matches all documents of the language. -/
theorem matchesDocument_of_has {s : Selector} {uri language text : String}
    (h : s.keys.Has (.language text)) (htext : text = wildcard ∨ text = language) :
    s.matchesDocument uri language = true := by
  induction s using induct with
  | language own =>
      rw [has_keys_text, keyOfText] at h
      split at h
      · cases h
      next hglob =>
        cases h
        by_cases hwild : text = wildcard
        · simp [matchesDocument, hwild]
        · simpa [matchesDocument, hwild, hglob] using htext.resolve_left hwild
  | filter f =>
      rw [has_keys_filter] at h
      unfold keyOfFilter at h
      split at h
      · cases h
        rcases htext with rfl | rfl <;> simp [matchesDocument, passes]
      · cases h
  | many selectors ih =>
      obtain ⟨s, hs, hhas⟩ := has_keys_many.mp h
      rw [matchesDocument_many]
      exact List.any_eq_true.mpr ⟨s, hs, ih s hs hhas⟩

/-- What matches a document is filed under its language, under `*`, or apart. -/
theorem has_of_matchesDocument {s : Selector} {uri language : String}
    (h : s.matchesDocument uri language = true) :
    s.keys.Has (.language wildcard) ∨ s.keys.Has (.language language) ∨ s.keys.Has .apart := by
  induction s using induct with
  | language text =>
      simp only [has_keys_text, keyOfText]
      split
      · exact .inr (.inr rfl)
      next hglob =>
        by_cases hwild : text = wildcard
        · exact .inl (by rw [hwild])
        · have hsame : text = language := by simpa [matchesDocument, hwild, hglob] using h
          exact .inr (.inl (by rw [hsame]))
  | filter f =>
      simp only [has_keys_filter]
      unfold keyOfFilter
      split
      · simp [matchesDocument, passes] at h
        simpa [eq_comm] using h
      · exact .inr (.inr rfl)
  | many selectors ih =>
      rw [matchesDocument_many] at h
      obtain ⟨s, hs, hmatch⟩ := List.any_eq_true.mp h
      simp only [has_keys_many]
      rcases ih s hs hmatch with hkey | hkey | hkey
      · exact .inl ⟨s, hs, hkey⟩
      · exact .inr (.inl ⟨s, hs, hkey⟩)
      · exact .inr (.inr ⟨s, hs, hkey⟩)

end Selector

end EditorHost
