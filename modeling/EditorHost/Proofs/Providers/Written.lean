import EditorHost.Proofs.Providers.Keys
import EditorHost.Proofs.Table

/-!
# What a written selector is read back as

A filter can be read from a list with the values of its fields, and whether a list is a filter is
tried before it is read as a list of selectors.  So a list of at most three texts, as it is written
for a selector that means any of these languages and globs, comes back as the filter that asks for
all of them (`Selector.reread`), wherever in a selector it stands.

Of a list with one language nobody can tell (`Selector.alike_reread`).  Of the others only those
with nothing but globs are still filed where they were (`Selector.keys_reread_texts`).
-/

namespace EditorHost

open Json (Slot slots)

namespace Selector

/-! ## Filters -/

theorem read_toJson_filter (f : DocumentFilter) : DocumentFilter.read f.toJson = some f := by
  obtain ⟨_ | language, _ | scheme, _ | pattern⟩ := f <;>
    simp [DocumentFilter.read, DocumentFilter.toJson, Json.ofFields, slots, Table.ofList,
      Table.find?_insert, Json.field?, Slot.omittable, Json.asText?]

/-- The texts of a list in the places of a filter's fields. -/
def asFilter? : List Selector → Option DocumentFilter
  | [] => some ⟨none, none, none⟩
  | [.language a] => some ⟨some a, none, none⟩
  | [.language a, .language b] => some ⟨some a, some b, none⟩
  | [.language a, .language b, .language c] => some ⟨some a, some b, some c⟩
  | _ => none

/-- What is written for a selector has a text in the place of a field only for a text. -/
theorem omittable_toJson (s : Selector) :
    (Slot.given s.toJson).omittable Json.asText? =
      match s with
      | .language text => some (some text)
      | _ => none := by
  cases s with
  | filter f => obtain ⟨_ | language, _ | scheme, _ | pattern⟩ := f <;> rfl
  | _ => rfl

theorem read_toJsonAll_filter (selectors : List Selector) :
    DocumentFilter.read (.array (toJsonAll selectors)) = asFilter? selectors := by
  match selectors with
  | [] => rfl
  | [a] =>
      simp only [DocumentFilter.read, toJsonAll, slots, Json.itemSlots, Option.map_some,
        omittable_toJson]
      cases a <;> rfl
  | [a, b] =>
      simp only [DocumentFilter.read, toJsonAll, slots, Json.itemSlots, Option.map_some,
        omittable_toJson]
      cases a <;> cases b <;> rfl
  | [a, b, c] =>
      simp only [DocumentFilter.read, toJsonAll, slots, Json.itemSlots, Option.map_some,
        omittable_toJson]
      cases a <;> cases b <;> cases c <;> rfl
  | _ :: _ :: _ :: _ :: _ => simp [DocumentFilter.read, toJsonAll, slots, Json.itemSlots, asFilter?]

/-! ## Reading back -/

mutual
/-- What a selector is read back as: a list that could be a filter has become one. -/
def reread : Selector → Selector
  | .language text => .language text
  | .filter f => .filter f
  | .many selectors =>
    match asFilter? selectors with
    | some f => .filter f
    | none => .many (rereadAll selectors)

def rereadAll : List Selector → List Selector
  | [] => []
  | s :: rest => reread s :: rereadAll rest
end

theorem rereadAll_eq_map (selectors : List Selector) :
    rereadAll selectors = selectors.map reread := by
  induction selectors with
  | nil => rfl
  | cons s rest ih => rw [rereadAll, ih, List.map_cons]

theorem readAll_toJsonAll {selectors : List Selector}
    (h : ∀ s ∈ selectors, read s.toJson = some s.reread) :
    readAll (toJsonAll selectors) = some (rereadAll selectors) := by
  induction selectors with
  | nil => rfl
  | cons s rest ih =>
      obtain ⟨hs, hrest⟩ := List.forall_mem_cons.mp h
      rw [toJsonAll, readAll, hs, ih hrest]
      rfl

theorem read_object (fields : List (String × Json)) :
    read (.object fields) = (DocumentFilter.read (.object fields)).map .filter := by
  rw [read] <;> simp

/-- What is written for a selector can be read. -/
theorem read_toJson (s : Selector) : read s.toJson = some s.reread := by
  induction s using induct with
  | language text => rfl
  | filter f =>
      obtain ⟨fields, hfields⟩ : ∃ fields, f.toJson = .object fields := ⟨_, rfl⟩
      rw [toJson, reread, hfields, read_object, ← hfields, read_toJson_filter, Option.map_some]
  | many selectors ih =>
      rw [toJson, read, read_toJsonAll_filter, reread, readAll_toJsonAll ih]
      cases asFilter? selectors <;> rfl

/-- A property of all lists in a selector. -/
inductive Lists (P : List Selector → Prop) : Selector → Prop where
  | language (text : String) : Lists P (.language text)
  | filter (f : DocumentFilter) : Lists P (.filter f)
  | many {selectors : List Selector} (here : P selectors) (below : ∀ s ∈ selectors, Lists P s) :
      Lists P (.many selectors)

theorem lists_many {P : List Selector → Prop} {selectors : List Selector} :
    Lists P (.many selectors) ↔ P selectors ∧ ∀ s ∈ selectors, Lists P s := by
  constructor
  · intro h
    cases h with
    | many here below => exact ⟨here, below⟩
  · exact fun h => .many h.1 h.2

/-- The same selector is read back if no list in it could be a filter. -/
theorem reread_eq_self_iff (s : Selector) :
    s.reread = s ↔ s.Lists fun selectors => asFilter? selectors = none := by
  induction s using induct with
  | language text => exact iff_of_true rfl (.language text)
  | filter f => exact iff_of_true rfl (.filter f)
  | many selectors ih =>
      rw [reread, lists_many]
      cases hfilter : asFilter? selectors with
      | some f => simp
      | none =>
          have hmap : selectors.map reread = selectors ↔ ∀ s ∈ selectors, s.reread = s := by
            simpa using List.map_inj_left (l := selectors) (f := reread) (g := id)
          simp only [Selector.many.injEq, rereadAll_eq_map, true_and, hmap]
          exact forall₂_congr ih

/-! ## Meaning -/

/-- Two selectors that nobody can tell apart. -/
structure Alike (s s' : Selector) : Prop where
  keys : s.keys = s'.keys
  documents : ∀ uri language, s.matchesDocument uri language = s'.matchesDocument uri language
  languages : ∀ language, s.matchesLanguage language = s'.matchesLanguage language

/-- A list that could be a filter consists of a single language. -/
def Single (selectors : List Selector) : Prop :=
  ∀ f, asFilter? selectors = some f → ∃ name, selectors = [.language name] ∧ isGlob name = false

theorem Single.eq {selectors : List Selector} {f : DocumentFilter} (h : Single selectors)
    (hf : asFilter? selectors = some f) :
    ∃ name, selectors = [.language name] ∧ f = ⟨some name, none, none⟩ ∧ isGlob name = false := by
  obtain ⟨name, rfl, hname⟩ := h f hf
  exact ⟨name, rfl, (Option.some.inj hf).symm, hname⟩

theorem addKeys_reread {s : Selector} (h : s.Lists Single) (keys : SelectorKeys) :
    addKeys keys s.reread = addKeys keys s := by
  induction s using induct generalizing keys with
  | language text => rfl
  | filter f => rfl
  | many selectors ih =>
      obtain ⟨hsingle, hbelow⟩ := lists_many.mp h
      rw [reread]
      cases hfilter : asFilter? selectors with
      | some f =>
          obtain ⟨name, rfl, rfl, hname⟩ := hsingle.eq hfilter
          simp [addKeys, addAllKeys, hname]
      | none =>
          rw [addKeys, addKeys]
          clear hsingle hfilter h
          induction selectors generalizing keys with
          | nil => rfl
          | cons s rest ihrest =>
              obtain ⟨ihs, ih⟩ := List.forall_mem_cons.mp ih
              obtain ⟨hs, hbelow⟩ := List.forall_mem_cons.mp hbelow
              rw [rereadAll, addAllKeys, addAllKeys, ihs hs]
              exact ihrest ih _ hbelow

theorem matchesDocument_reread {s : Selector} (h : s.Lists Single) (uri language : String) :
    s.reread.matchesDocument uri language = s.matchesDocument uri language := by
  induction s using induct with
  | language text => rfl
  | filter f => rfl
  | many selectors ih =>
      obtain ⟨hsingle, hbelow⟩ := lists_many.mp h
      rw [reread]
      cases hfilter : asFilter? selectors with
      | some f =>
          obtain ⟨name, rfl, rfl, hname⟩ := hsingle.eq hfilter
          by_cases hwild : name = wildcard <;>
            simp [matchesDocument, matchesAny, passes, hname, hwild]
      | none =>
          dsimp only
          rw [matchesDocument_many, matchesDocument_many, rereadAll_eq_map, List.any_map,
            Bool.eq_iff_iff, List.any_eq_true, List.any_eq_true]
          refine exists_congr fun s => and_congr_right fun hs => ?_
          rw [Function.comp_apply, ih s hs (hbelow s hs)]

theorem alike_reread {s : Selector} (h : s.Lists Single) : Alike s.reread s := by
  have hkeys : s.reread.keys = s.keys := addKeys_reread h {}
  exact ⟨hkeys, matchesDocument_reread h, fun language => by rw [matchesLanguage, hkeys]; rfl⟩

/-! ## Short lists of texts -/

theorem keys_globs {texts : List String} (hne : texts ≠ [])
    (h : ∀ text ∈ texts, isGlob text = true) :
    (Selector.many (texts.map .language)).keys = { hasPatterns := true } := by
  suffices hall : ∀ keys : SelectorKeys, addAllKeys keys (texts.map .language) =
      { keys with hasPatterns := keys.hasPatterns || !texts.isEmpty } by
    simp [Selector.keys, addKeys, hall, hne]
  clear hne
  induction texts with
  | nil => simp [addAllKeys]
  | cons text texts ih =>
      obtain ⟨htext, h⟩ := List.forall_mem_cons.mp h
      intro keys
      rw [List.map_cons, addAllKeys, ih h]
      simp [addKeys, htext, Keys.pattern]

theorem has_keys_texts {texts : List String} {key : SelectorKey} :
    (Selector.many (texts.map .language)).keys.Has key ↔ ∃ text ∈ texts, key = keyOfText text := by
  rw [has_keys_many]
  constructor
  · rintro ⟨s, hs, hhas⟩
    obtain ⟨text, hmem, rfl⟩ := List.mem_map.mp hs
    exact ⟨text, hmem, has_keys_text.mp hhas⟩
  · rintro ⟨text, hmem, heq⟩
    exact ⟨_, List.mem_map_of_mem hmem, has_keys_text.mpr heq⟩

/-- Unless it is a single one, texts in the places of a filter's fields look at the document. -/
theorem keys_asFilter? {texts : List String} (hlength : texts.length ≤ 3)
    (hsingle : ∀ name, texts ≠ [name]) :
    ∃ f, asFilter? (texts.map .language) = some f ∧
      (Selector.filter f).keys = { hasPatterns := true } := by
  match texts with
  | [] | [_, _] | [_, _, _] => exact ⟨_, rfl, rfl⟩
  | [name] => exact absurd rfl (hsingle name)
  | _ :: _ :: _ :: _ :: _ =>
      simp only [List.length_cons] at hlength
      omega

theorem keys_reread_single (name : String) :
    (Selector.many [.language name]).reread.keys = (Selector.many [.language name]).keys ↔
      isGlob name = false := by
  constructor
  · intro heq
    have hname : (Selector.many [.language name]).keys.Has (.language name) :=
      heq ▸ has_keys_filter (f := ⟨some name, none, none⟩).mpr rfl
    simpa [has_keys_many, has_keys_text, keyOfText] using hname
  · intro hname
    refine (alike_reread (.many (fun f _ => ⟨name, rfl, hname⟩) ?_)).keys
    simpa using Lists.language name

/-- A list of at most three texts keeps its keys if it is a single language, or globs only, which
then have become the language and the scheme that documents are to have. -/
theorem keys_reread_texts {texts : List String} (hlength : texts.length ≤ 3) :
    (Selector.many (texts.map .language)).reread.keys = (Selector.many (texts.map .language)).keys ↔
      (∃ name, texts = [name] ∧ isGlob name = false) ∨
        2 ≤ texts.length ∧ ∀ text ∈ texts, isGlob text = true := by
  by_cases hsingle : ∃ name, texts = [name]
  · obtain ⟨name, rfl⟩ := hsingle
    simpa using keys_reread_single name
  rw [not_exists] at hsingle
  obtain ⟨f, hfilter, hkeys⟩ := keys_asFilter? hlength hsingle
  have hmany : ¬∃ name, texts = [name] ∧ isGlob name = false := by
    rintro ⟨name, hname, -⟩
    exact hsingle name hname
  rw [reread, hfilter, hkeys, or_iff_right hmany]
  constructor
  · intro heq
    have hhas {key : SelectorKey} : key = .apart ↔ ∃ text ∈ texts, key = keyOfText text := by
      rw [← has_keys_texts, ← heq]
      cases key <;> simp [SelectorKeys.Has]
    constructor
    · obtain ⟨text, hmem, -⟩ := hhas.mp rfl
      rcases texts with _ | ⟨name, _ | ⟨next, texts⟩⟩
      · cases hmem
      · exact absurd rfl (hsingle name)
      · simp
    · intro text hmem
      have hapart := hhas.mpr ⟨text, hmem, rfl⟩
      cases hglob : isGlob text with
      | true => rfl
      | false => simp [keyOfText, hglob] at hapart
  · rintro ⟨htwo, hglobs⟩
    exact (keys_globs (List.ne_nil_of_length_pos (by omega)) hglobs).symm

/-! ## The rereading -/

/-- **What a written selector is read back as.**  It can always be read.  Nothing has changed
exactly if no list in it is one of at most three texts, which become the language, the scheme and
the pattern of a filter.  Nobody can tell the difference if each of these is a single language; and
such a list by itself has other keys than before, unless it is that or has only globs. -/
theorem read_written (s : Selector) :
    read s.toJson = some s.reread ∧
      (s.reread = s ↔ s.Lists fun selectors => asFilter? selectors = none) ∧
      (s.Lists Single → Alike s.reread s) ∧
      ∀ texts : List String, texts.length ≤ 3 → s = .many (texts.map .language) →
        (s.reread.keys = s.keys ↔
          (∃ name, texts = [name] ∧ isGlob name = false) ∨
            2 ≤ texts.length ∧ ∀ text ∈ texts, isGlob text = true) := by
  refine ⟨read_toJson s, reread_eq_self_iff s, alike_reread, ?_⟩
  rintro texts hlength rfl
  exact keys_reread_texts hlength

/-- A language, a filter and a list of one language. -/
def mixedList : Selector :=
  .many [.language "javascript", .filter { language := some "typescript" },
    .many [.language "rust"]]

/-- Written and read back, the inner list is a filter, and means the same. -/
theorem read_written_mixed :
    ∃ s', read mixedList.toJson = some s' ∧ Alike s' mixedList := by
  obtain ⟨hread, -, halike, -⟩ := read_written mixedList
  refine ⟨_, hread, halike (.many (fun f h => by cases h) ?_)⟩
  simp only [List.forall_mem_cons]
  refine ⟨.language _, .filter _, .many (fun f _ => ⟨"rust", rfl, by decide⟩) ?_, by simp⟩
  simpa using Lists.language "rust"

/-- Two languages are read back as a language and a scheme. -/
theorem read_written_languages :
    let s := Selector.many [.language "python", .language "javascript"]
    let s' := Selector.filter { language := some "python", scheme := some "javascript" }
    read s.toJson = some s' ∧ s.keys = ⟨["javascript", "python"], false⟩ ∧
      s'.keys = ⟨[], true⟩ ∧ s.matchesLanguage "python" = true ∧
      s'.matchesLanguage "python" = false ∧
      s.matchesDocument "file:///a.py" "python" = true ∧
      s'.matchesDocument "file:///a.py" "python" = false := by
  refine ⟨rfl, ?_⟩
  decide

end Selector

end EditorHost
