import EditorHost.Proofs.Diary
import EditorHost.Proofs.Interference
import EditorHost.Proofs.Providers.Lookup

/-!
# What comes of asking providers

A query goes to the providers that match the document, one after another.  Each of them may wait,
and then others may do anything to the state; whom the query is for has been settled before.

What is found is put together from the outcomes of the single calls (`queries_merge`), or is what
the first call found that found something (`edits_of_first`).  A formatter that returns no edits has
found nothing.  A provider that returns an edit of several documents has found it even if there is
no change in it, so that a rename ends there (`rename_stops_at_nothing`).

## Contents

* `Asked`: the calls of some providers in order, with their outcomes.
* `Flow.Notes`: what a flow has written into the diary, at every point of it.
* `ends_collect` and `ends_firstWith`: the two ways to ask.
* `Query.audience`: whom a query is for, in terms of the registrations in force.
-/

namespace EditorHost

open Flow (Reaches)

variable {σ α β χ : Type}

/-! ## Calls one after another -/

section Calls

variable {rely : σ → σ → Prop} {ask : Registration → Flow σ (Outcome α)}

/-- Some providers are asked in order, each when the one before it has come to its outcome. -/
inductive Asked (rely : σ → σ → Prop) (ask : Registration → Flow σ (Outcome α)) :
    List Registration → σ → List (Outcome α) → σ → Prop
  | nil {s : σ} : Asked rely ask [] s [] s
  | cons {r : Registration} {rest : List Registration} {s t u : σ} {outcome : Outcome α}
      {outcomes : List (Outcome α)} (first : (ask r).Ends rely s outcome t)
      (others : Asked rely ask rest t outcomes u) :
      Asked rely ask (r :: rest) s (outcome :: outcomes) u

/-- What is collected are the values of all calls that return. -/
theorem ends_collect {registrations : List Registration} {s u : σ} {answers : List α} :
    (Api.collect ask registrations).Ends rely s answers u ↔
      ∃ outcomes, Asked rely ask registrations s outcomes u ∧
        answers = outcomes.filterMap Outcome.value? := by
  induction registrations generalizing s u answers with
  | nil =>
      refine Flow.ends_done.trans ⟨?_, ?_⟩
      · rintro ⟨rfl, rfl⟩
        exact ⟨[], .nil, rfl⟩
      · rintro ⟨outcomes, hasked, rfl⟩
        cases hasked
        exact ⟨rfl, rfl⟩
  | cons r rest ih =>
      simp only [Api.collect, Flow.bind_eq, Flow.pure_eq, Flow.ends_bind, Flow.ends_done, ih]
      constructor
      · rintro ⟨outcome, t, hfirst, others, _, ⟨outcomes, hrest, rfl⟩, rfl, rfl⟩
        refine ⟨outcome :: outcomes, .cons hfirst hrest, ?_⟩
        cases outcome <;> rfl
      · rintro ⟨_, hasked, rfl⟩
        cases hasked with
        | @cons _ _ _ t _ outcome outcomes hfirst hrest =>
            refine ⟨outcome, t, hfirst, _, u, ⟨outcomes, hrest, rfl⟩, ?_, rfl⟩
            cases outcome <;> rfl

/-- Which answer is taken: the last call is the first one that returned what is looked for, or none
did, and no provider is left. -/
inductive Chosen (good : α → Bool) :
    List (Outcome α) → List Registration → Option α → Prop
  | found {front : List (Outcome α)} {rest : List Registration} {answer : α}
      (hgood : good answer = true)
      (hfront : ∀ outcome ∈ front, ∀ other, outcome = .returned other → good other = false) :
      Chosen good (front ++ [.returned answer]) rest (some answer)
  | nothing {outcomes : List (Outcome α)}
      (hall : ∀ outcome ∈ outcomes, ∀ other, outcome = .returned other → good other = false) :
      Chosen good outcomes [] none

theorem Chosen.first {good : α → Bool} {answer : α} (hgood : good answer = true)
    (rest : List Registration) : Chosen good [.returned answer] rest (some answer) := by
  have hfront : ∀ outcome ∈ ([] : List (Outcome α)), ∀ other,
      outcome = .returned other → good other = false := fun _ h => nomatch h
  exact .found hgood hfront

theorem Chosen.cons {good : α → Bool} {outcome : Outcome α} {outcomes : List (Outcome α)}
    {rest : List Registration} {found : Option α}
    (hfirst : ∀ other, outcome = .returned other → good other = false)
    (h : Chosen good outcomes rest found) : Chosen good (outcome :: outcomes) rest found := by
  cases h with
  | found hgood hfront => exact .found hgood (List.forall_mem_cons.mpr ⟨hfirst, hfront⟩)
  | nothing hall => exact .nothing (List.forall_mem_cons.mpr ⟨hfirst, hall⟩)

/-- Behind a call that returned what is looked for no other is made. -/
theorem Chosen.of_cons {good : α → Bool} {outcome : Outcome α} {outcomes : List (Outcome α)}
    {rest : List Registration} {found : Option α}
    (h : Chosen good (outcome :: outcomes) rest found) :
    (∃ answer, outcome = .returned answer ∧ good answer = true ∧ outcomes = [] ∧
        found = some answer) ∨
      (∀ other, outcome = .returned other → good other = false) ∧
        Chosen good outcomes rest found := by
  generalize hall : outcome :: outcomes = all at h
  cases h with
  | @found front _ answer hgood hfront =>
      cases front with
      | nil =>
          obtain ⟨rfl, rfl⟩ := List.cons.inj hall
          exact .inl ⟨answer, rfl, hgood, rfl, rfl⟩
      | cons first front =>
          obtain ⟨rfl, rfl⟩ := List.cons.inj hall
          obtain ⟨hfirst, hfront⟩ := List.forall_mem_cons.mp hfront
          exact .inr ⟨hfirst, .found hgood hfront⟩
  | nothing hnone =>
      subst hall
      obtain ⟨hfirst, hrest⟩ := List.forall_mem_cons.mp hnone
      exact .inr ⟨hfirst, .nothing hrest⟩

/-- The first answer that is looked for ends the search. -/
theorem ends_firstWith {good : α → Bool} {registrations : List Registration} {s u : σ}
    {found : Option α} : (Api.firstWith good ask registrations).Ends rely s found u ↔
      ∃ asked rest outcomes, registrations = asked ++ rest ∧ Asked rely ask asked s outcomes u ∧
        Chosen good outcomes rest found := by
  induction registrations generalizing s with
  | nil =>
      refine Flow.ends_done.trans ⟨?_, ?_⟩
      · rintro ⟨rfl, rfl⟩
        exact ⟨[], [], [], rfl, .nil, .nothing fun _ h => nomatch h⟩
      · rintro ⟨asked, rest, outcomes, hnil, hasked, hchosen⟩
        obtain ⟨rfl, rfl⟩ := List.append_eq_nil_iff.mp hnil.symm
        cases hasked
        generalize hempty : ([] : List (Outcome α)) = outcomes at hchosen
        cases hchosen with
        | found => simp at hempty
        | nothing => exact ⟨rfl, rfl⟩
  | cons r registrations ih =>
      have hcons : (Api.firstWith good ask (r :: registrations)).Ends rely s found u ↔
          ∃ outcome t, (ask r).Ends rely s outcome t ∧
            ((∃ answer, outcome = .returned answer ∧ good answer = true ∧ found = some answer ∧
                u = t) ∨
              (∀ other, outcome = .returned other → good other = false) ∧
                (Api.firstWith good ask registrations).Ends rely t found u) := by
        refine Flow.ends_bind.trans (exists_congr fun outcome => exists_congr fun t =>
          and_congr_right fun _ => ?_)
        cases outcome with
        | returned answer =>
            cases hgood : good answer with
            | true => simp [hgood]
            | false => simp [hgood]
        | failed failure => simp
        | panicked => simp
      simp only [hcons, ih]
      constructor
      · rintro ⟨outcome, t, hfirst, ⟨answer, rfl, hgood, rfl, rfl⟩ |
          ⟨hbad, asked, rest, outcomes, rfl, hasked, hchosen⟩⟩
        · exact ⟨[r], registrations, [.returned answer], rfl, .cons hfirst .nil, .first hgood _⟩
        · exact ⟨r :: asked, rest, outcome :: outcomes, rfl, .cons hfirst hasked, hchosen.cons hbad⟩
      · rintro ⟨asked, rest, outcomes, hall, hasked, hchosen⟩
        cases hasked with
        | nil =>
            obtain rfl : r :: registrations = rest := hall
            generalize hempty : ([] : List (Outcome α)) = outcomes at hchosen
            generalize hrest : r :: registrations = rest at hchosen
            cases hchosen with
            | found => simp at hempty
            | nothing => cases hrest
        | @cons _ asked _ t _ outcome outcomes hfirst hothers =>
            obtain ⟨rfl, rfl⟩ := List.cons.inj hall
            refine ⟨outcome, t, hfirst, ?_⟩
            rcases hchosen.of_cons with ⟨answer, rfl, hgood, rfl, rfl⟩ | ⟨hbad, hchosen⟩
            · cases hothers
              exact .inl ⟨answer, rfl, hgood, rfl, rfl⟩
            · exact .inr ⟨hbad, asked, rest, outcomes, rfl, hothers, hchosen⟩

end Calls

/-! ## The diary -/

section Diary

variable {rely : World (Noted χ) → World (Noted χ) → Prop} {w : World (Noted χ)}

/-- At every point of a flow, what it has written into the diary is the beginning of a list. -/
def Flow.Notes (rely : World (Noted χ) → World (Noted χ) → Prop) (flow : Flow (World (Noted χ)) α)
    (w : World (Noted χ)) (entries : List DiaryEntry) : Prop :=
  ∀ m u, Reaches rely flow w m u → ∃ noted, noted <+: entries ∧ u.diary = w.diary ++ noted

theorem Flow.notes_done (value : α) (entries : List DiaryEntry) :
    (Flow.done value).Notes rely w entries := by
  intro m u h
  obtain rfl := Flow.reaches_done h
  obtain ⟨-, rfl⟩ := Flow.ends_done.mp h
  exact ⟨[], List.nil_prefix, (List.append_nil _).symm⟩

/-- The second flow writes behind what the first one has written in all. -/
theorem Flow.Notes.bind {flow : Flow (World (Noted χ)) α} {k : α → Flow (World (Noted χ)) β}
    {first rest : List DiaryEntry} (hflow : flow.Notes rely w first)
    (hk : ∀ value t, flow.Ends rely w value t →
      t.diary = w.diary ++ first ∧ (k value).Notes rely t rest) :
    (flow.bind k).Notes rely w (first ++ rest) := by
  intro m u h
  rcases Flow.reaches_bind h with ⟨m, hm, -⟩ | ⟨value, t, hend, hrest⟩
  · obtain ⟨noted, hnoted, hdiary⟩ := hflow m u hm
    exact ⟨noted, hnoted.trans (List.prefix_append _ _), hdiary⟩
  · obtain ⟨hdiary, hnotes⟩ := hk value t hend
    obtain ⟨noted, hnoted, hmore⟩ := hnotes m u hrest
    refine ⟨first ++ noted, (List.prefix_append_right_inj first).mpr hnoted, ?_⟩
    rw [hmore, hdiary, List.append_assoc]

/-- A look at the state is not noted. -/
theorem Flow.Notes.read_bind {view : World (Noted χ) → α}
    {k : α → Flow (World (Noted χ)) β} {entries : List DiaryEntry}
    (h : (k (view w)).Notes rely w entries) :
    ((Flow.read view).bind k).Notes rely w entries := by
  intro m u hreaches
  rcases Flow.reaches_act hreaches with ⟨-, rfl⟩ | hreaches
  · exact ⟨[], List.nil_prefix, (List.append_nil _).symm⟩
  · exact h m u hreaches

variable (hrely : ∀ s t, rely s t → t.diary = s.diary) (code : Code χ)

include hrely

/-- A call of a provider is noted when it begins, and what the provider does then is not. -/
theorem Code.reaches_provider {callback : Callback} {document : DocumentId} {query : Query}
    {m : Flow (World (Noted χ)) (Outcome query.Answer)} {u : World (Noted χ)}
    (h : Reaches rely (code.noted.provider callback document query) w m u) :
    (m = code.noted.provider callback document query ∧ u = w) ∨
      u.diary = w.diary ++ [.asked callback document query] := by
  rcases Flow.reaches_act h with hsame | hreaches
  · exact .inl hsame
  · have hplain : ((code.provider callback document query).focus World.plainPart).Within
        fun s t : World (Noted χ) => t.diary = s.diary :=
      (Flow.within_true _).focus fun _ _ _ => rfl
    have htrans (s t u : World (Noted χ)) (hst : t.diary = s.diary) (htu : u.diary = t.diary) :
        u.diary = s.diary := htu.trans hst
    exact .inr (hplain.reaches (fun s => Eq.refl s.diary) htrans hrely hreaches).1

theorem Code.notes_provider (callback : Callback) (document : DocumentId) (query : Query) :
    (code.noted.provider callback document query).Notes rely w
      [.asked callback document query] := by
  intro m u h
  rcases code.reaches_provider hrely h with ⟨-, rfl⟩ | hdiary
  · exact ⟨[], List.nil_prefix, (List.append_nil _).symm⟩
  · exact ⟨_, List.prefix_refl _, hdiary⟩

theorem Code.diary_provider {callback : Callback} {document : DocumentId} {query : Query}
    {outcome : Outcome query.Answer} {u : World (Noted χ)}
    (h : (code.noted.provider callback document query).Ends rely w outcome u) :
    u.diary = w.diary ++ [.asked callback document query] := by
  rcases code.reaches_provider hrely h with ⟨heq, -⟩ | hdiary
  · cases heq
  · exact hdiary

omit hrely in
/-- A provider that answers at once. -/
theorem Code.ends_provider {code : Code χ} {callback : Callback} {document : DocumentId}
    {query : Query} {outcome : Outcome query.Answer}
    (h : code.provider callback document query = .done outcome) :
    (code.noted.provider callback document query).Ends rely w outcome
      (World.note (.asked callback document query) w).2 := by
  refine (Flow.ends_sync_bind _).mpr ?_
  rw [h]
  exact .here

variable {document : DocumentId} {query : Query}

/-- Each call is noted once, in order. -/
theorem Asked.diary {registrations : List Registration} {outcomes : List (Outcome query.Answer)}
    {u : World (Noted χ)} (h : Asked rely
      (fun r => code.noted.provider r.provider document query) registrations w outcomes u) :
    u.diary = w.diary ++ registrations.map fun r => .asked r.provider document query := by
  induction h with
  | nil => exact (List.append_nil _).symm
  | cons hfirst hothers ih =>
      rw [ih, code.diary_provider hrely hfirst, List.append_assoc]
      rfl

theorem notes_collect (registrations : List Registration) :
    (Api.collect (fun r => code.noted.provider r.provider document query) registrations).Notes rely
      w (registrations.map fun r => .asked r.provider document query) := by
  induction registrations generalizing w with
  | nil => exact Flow.notes_done _ _
  | cons r rest ih =>
      refine (code.notes_provider hrely r.provider document query).bind fun outcome t hend =>
        ⟨code.diary_provider hrely hend, fun m u h => ?_⟩
      obtain ⟨m, hm, -⟩ := Flow.reaches_bind_done h
      exact ih m u hm

theorem notes_firstWith (good : query.Answer → Bool) (registrations : List Registration) :
    (Api.firstWith good (fun r => code.noted.provider r.provider document query)
      registrations).Notes rely w
        (registrations.map fun r => .asked r.provider document query) := by
  induction registrations generalizing w with
  | nil => exact Flow.notes_done _ _
  | cons r rest ih =>
      refine (code.notes_provider hrely r.provider document query).bind fun outcome t hend =>
        ⟨code.diary_provider hrely hend, ?_⟩
      cases outcome with
      | returned answer =>
          dsimp only
          split
          · exact Flow.notes_done _ _
          · exact ih
      | failed failure => exact ih
      | panicked => exact ih

end Diary

/-! ## Whom a query is for -/

/-- The registrations in force that a query about a document is for, in the order of
registration. -/
def Query.audience (query : Query) (calls : List Registry.Call) (uri language : String) :
    List Registration :=
  (Registry.inForce calls).filter fun e =>
    e.capability == query.capability && e.selector.matchesDocument uri language &&
      query.concerns e

theorem Api.providersFor_eq {api : Api} {calls : List Registry.Call} {uri : String}
    {id : DocumentId} {document : Document} (hregistry : api.registry = Registry.after calls)
    (hid : api.documents.find? uri = some id) (hdocument : api.documents.object? id = some document)
    (query : Query) :
    api.providersFor query uri = some (id, query.audience calls uri document.language) := by
  obtain ⟨hfiled, -, hlive⟩ := Registry.accounted_after calls
  simp only [providersFor, hid, hdocument, hregistry, Option.map_some, Option.getD_some,
    hfiled.forDocument_eq, hlive, List.filter_filter]
  refine congrArg (fun registrations => some (id, registrations)) (List.filter_congr fun e _ => ?_)
  rw [Bool.and_comm]

theorem Api.providersFor_untracked {api : Api} {uri : String}
    (hid : api.documents.find? uri = none) (query : Query) : api.providersFor query uri = none := by
  simp only [providersFor, hid]

/-! ## Queries -/

namespace World

section Queries

variable (code : Code χ) (calls : List Registry.Call) (uri : String) (w : World (Noted χ))

/-- A query is put to all providers that it is for, to each once and in order, and ends with what a
function makes of the answers of those that return. -/
structure Merges (query : Query) (merge : List query.Answer → List β)
    (flow : Flow (World (Noted χ)) (List β)) : Prop where
  untracked : w.api.documents.find? uri = none → ∀ rely items u,
    flow.Ends rely w items u ↔ items = [] ∧ u = w
  tracked : ∀ id document, w.api.documents.find? uri = some id →
    w.api.documents.object? id = some document → ∀ rely items u,
      flow.Ends rely w items u ↔ ∃ outcomes,
        Asked rely (fun r => code.noted.provider r.provider id query)
          (query.audience calls uri document.language) w outcomes u ∧
        items = merge (outcomes.filterMap Outcome.value?)
  noted : ∀ id document, w.api.documents.find? uri = some id →
    w.api.documents.object? id = some document → ∀ rely, (∀ s t, rely s t → t.diary = s.diary) →
      let asked := (query.audience calls uri document.language).map fun r =>
        DiaryEntry.asked r.provider id query
      flow.Notes rely w asked ∧ ∀ items u, flow.Ends rely w items u → u.diary = w.diary ++ asked

/-- A query is put to the providers that it is for, to each once and in order, until one of them
returns what is looked for, and ends with what a function makes of that. -/
structure TakesFirst (query : Query) (good : query.Answer → Bool)
    (result : Option query.Answer → β) (flow : Flow (World (Noted χ)) β) : Prop where
  untracked : w.api.documents.find? uri = none → ∀ rely value u,
    flow.Ends rely w value u ↔ value = result none ∧ u = w
  tracked : ∀ id document, w.api.documents.find? uri = some id →
    w.api.documents.object? id = some document → ∀ rely value u,
      flow.Ends rely w value u ↔ ∃ asked rest outcomes found,
        query.audience calls uri document.language = asked ++ rest ∧
        Asked rely (fun r => code.noted.provider r.provider id query) asked w outcomes u ∧
        Chosen good outcomes rest found ∧ value = result found
  noted : ∀ id document, w.api.documents.find? uri = some id →
    w.api.documents.object? id = some document → ∀ rely, (∀ s t, rely s t → t.diary = s.diary) →
      flow.Notes rely w ((query.audience calls uri document.language).map fun r =>
        .asked r.provider id query) ∧
      ∀ asked outcomes u,
        Asked rely (fun r => code.noted.provider r.provider id query) asked w outcomes u →
        u.diary = w.diary ++ asked.map fun r => .asked r.provider id query

variable {calls w}

section Consulting

variable {rely : World (Noted χ) → World (Noted χ) → Prop} {query : Query} {fallback value : α}
  {way : (Registration → Flow (World (Noted χ)) (Outcome query.Answer)) → List Registration →
    Flow (World (Noted χ)) α} {u : World (Noted χ)}

/-- Nobody is asked about a document that is not tracked. -/
theorem ends_consult_untracked (hid : w.api.documents.find? uri = none) :
    (consult code.noted uri query fallback way).Ends rely w value u ↔ value = fallback ∧ u = w := by
  simp only [consult, Flow.bind_eq, Flow.pure_eq, Flow.ends_read_bind,
    Api.providersFor_untracked hid, Flow.ends_done]

variable {id : DocumentId} {document : Document}
  (hregistry : w.api.registry = Registry.after calls)
  (hid : w.api.documents.find? uri = some id)
  (hdocument : w.api.documents.object? id = some document)

include hregistry hid hdocument

theorem ends_consult : (consult code.noted uri query fallback way).Ends rely w value u ↔
    (way (fun r => code.noted.provider r.provider id query)
      (query.audience calls uri document.language)).Ends rely w value u := by
  simp only [consult, Flow.bind_eq, Flow.ends_read_bind,
    Api.providersFor_eq hregistry hid hdocument]

theorem notes_consult {entries : List DiaryEntry}
    (h : (way (fun r => code.noted.provider r.provider id query)
      (query.audience calls uri document.language)).Notes rely w entries) :
    (consult code.noted uri query fallback way).Notes rely w entries := by
  refine Flow.Notes.read_bind ?_
  rw [Api.providersFor_eq hregistry hid hdocument]
  exact h

end Consulting

variable (hregistry : w.api.registry = Registry.after calls)

include hregistry

theorem merges_consult {query : Query} {merge : List query.Answer → List β}
    (hnil : merge [] = []) :
    Merges code calls uri w query merge
      ((consult code.noted uri query [] Api.collect).bind fun answers =>
        .done (merge answers)) where
  untracked hid rely items u := by
    simp only [Flow.ends_bind, ends_consult_untracked code uri hid, Flow.ends_done]
    constructor
    · rintro ⟨_, _, ⟨rfl, rfl⟩, rfl, rfl⟩
      exact ⟨hnil, rfl⟩
    · rintro ⟨rfl, rfl⟩
      exact ⟨_, _, ⟨rfl, rfl⟩, hnil.symm, rfl⟩
  tracked id document hid hdocument rely items u := by
    simp only [Flow.ends_bind, ends_consult code uri hregistry hid hdocument, Flow.ends_done,
      ends_collect]
    constructor
    · rintro ⟨_, _, ⟨outcomes, hasked, rfl⟩, rfl, rfl⟩
      exact ⟨outcomes, hasked, rfl⟩
    · rintro ⟨outcomes, hasked, rfl⟩
      exact ⟨_, _, ⟨outcomes, hasked, rfl⟩, rfl, rfl⟩
  noted id document hid hdocument rely hrely := by
    refine ⟨fun m u h => ?_, fun items u hend => ?_⟩
    · obtain ⟨m, hm, -⟩ := Flow.reaches_bind_done h
      exact notes_consult code uri hregistry hid hdocument (notes_collect hrely code _) m u hm
    · obtain ⟨answers, t, hconsult, hdone⟩ := Flow.ends_bind.mp hend
      obtain ⟨-, rfl⟩ := Flow.ends_done.mp hdone
      obtain ⟨outcomes, hasked, -⟩ :=
        ends_collect.mp ((ends_consult code uri hregistry hid hdocument).mp hconsult)
      exact hasked.diary hrely code

theorem takesFirst_consult {query : Query} {good : query.Answer → Bool}
    (result : Option query.Answer → β) :
    TakesFirst code calls uri w query good result
      ((consult code.noted uri query none (Api.firstWith good)).bind fun found =>
        .done (result found)) where
  untracked hid rely value u := by
    simp only [Flow.ends_bind, ends_consult_untracked code uri hid, Flow.ends_done]
    constructor
    · rintro ⟨_, _, ⟨rfl, rfl⟩, rfl, rfl⟩
      exact ⟨rfl, rfl⟩
    · rintro ⟨rfl, rfl⟩
      exact ⟨_, _, ⟨rfl, rfl⟩, rfl, rfl⟩
  tracked id document hid hdocument rely value u := by
    simp only [Flow.ends_bind, ends_consult code uri hregistry hid hdocument, Flow.ends_done,
      ends_firstWith]
    constructor
    · rintro ⟨found, _, ⟨asked, rest, outcomes, hall, hasked, hchosen⟩, rfl, rfl⟩
      exact ⟨asked, rest, outcomes, found, hall, hasked, hchosen, rfl⟩
    · rintro ⟨asked, rest, outcomes, found, hall, hasked, hchosen, rfl⟩
      exact ⟨found, _, ⟨asked, rest, outcomes, hall, hasked, hchosen⟩, rfl, rfl⟩
  noted id document hid hdocument rely hrely := by
    refine ⟨fun m u h => ?_, fun asked outcomes u hasked => hasked.diary hrely code⟩
    obtain ⟨m, hm, -⟩ := Flow.reaches_bind_done h
    exact notes_consult code uri hregistry hid hdocument (notes_firstWith hrely code good _) m u hm

end Queries

/-! ## Putting answers together -/

/-- Queries whose answers are put together: for any registrations and removals, and whatever others
do while a provider waits, all providers that a query is for are asked, each once and in the order
of registration; the answers of those that return are put together in that order, and those that
fail or panic are passed over.  Nobody is asked about a document that is not tracked. -/
theorem queries_merge {calls : List Registry.Call} {w : World (Noted χ)} (code : Code χ)
    (uri : String) (hregistry : w.api.registry = Registry.after calls) :
    (∀ position trigger, Merges code calls uri w (.completion position trigger) List.flatten
      (completions code.noted uri position trigger)) ∧
    (∀ position, Merges code calls uri w (.hover position) (List.filterMap id)
      (hovers code.noted uri position)) ∧
    (∀ position, Merges code calls uri w (.definition position) List.flatten
      (definitions code.noted uri position)) ∧
    ∀ position declaration, Merges code calls uri w (.references position declaration) List.flatten
      (references code.noted uri position declaration) :=
  ⟨fun _ _ => merges_consult code uri hregistry rfl,
    fun _ => merges_consult code uri hregistry rfl,
    fun _ => merges_consult code uri hregistry rfl,
    fun _ _ => merges_consult code uri hregistry rfl⟩

/-- The replacement of the first character of a document. -/
def firstCharacter (text : String) : TextEdit := ⟨⟨⟨0, 0⟩, ⟨0, 1⟩⟩, text⟩

/-- Providers of all kinds.  The first one waits and completes, and finds no edits; the second one
completes and edits; the third one fails, and all others panic. -/
def mixedCode : Code Unit :=
  { Code.idle with
    provider := fun callback _ query =>
      match callback, query with
      | 1, .completion _ _ => Flow.pause.bind fun _ => .done (.returned [{ label := "one" }])
      | 1, .formatting _ => .done (.returned [])
      | 1, .rename _ _ => .done (.returned (some {}))
      | 2, .completion _ _ => .done (.returned [{ label := "two" }])
      | 2, .formatting _ => .done (.returned [firstCharacter "n"])
      | 2, .rename _ name =>
          .done (.returned (some ⟨[("file:///a.py", [firstCharacter name])]⟩))
      | 3, _ => .done (.failed ⟨"no", []⟩)
      | _, _ => .done .panicked }

/-- Registrations of these providers, some of which are taken back. -/
def mixedCalls : List Registry.Call :=
  [.register .completion (.language "py") 4 "p.a" ["."],
    .register .completion (.language "py") 1 "p.a" [".", ":"],
    .register .completion .any 2 "p.b" [],
    .register .completion (.language "rs") 2 "p.b" ["."],
    .register .completion .any 3 "p.b" ["."],
    .register .completion (.language "py") 2 "p.a" ["."],
    .register .completion (.language "py") 2 "p.c" ["."],
    .unregisterExtension "p.c",
    .register .formatting .any 3 "p.a" [],
    .register .formatting .any 1 "p.a" [],
    .register .formatting .any 2 "p.a" [],
    .register .formatting .any 1 "p.a" [],
    .register .rename (.language "py") 1 "p.a" [],
    .register .rename (.language "py") 2 "p.a" []]

/-- A document that they are for. -/
def mixedWorld : World (Noted Unit) where
  disk := .empty
  api := {
    documents := (DocumentStore.openDocument {} "file:///a.py" "py" "x" 1).2
    registry := .after mixedCalls }
  host := .ofDisk .empty (.ofDataDir ⟨"/data"⟩)
  client := { settings := ⟨30000, []⟩ }
  own := ⟨(), []⟩

/-- After a dot the panicking and the failing provider are passed over, and what the two others
complete is put together. -/
theorem queries_merge_mixed : mixedWorld.api.registry = Registry.after mixedCalls ∧
    ∃ u, (completions mixedCode.noted "file:///a.py" ⟨0, 0⟩ (some ".")).Ends
        (fun s t => t.diary = s.diary) mixedWorld [{ label := "one" }, { label := "two" }] u ∧
      u.diary = [4, 1, 3, 2].map fun provider =>
        .asked provider 0 (.completion ⟨0, 0⟩ (some ".")) := by
  have hmerges :=
    (@queries_merge Unit mixedCalls mixedWorld mixedCode "file:///a.py" rfl).1 ⟨0, 0⟩ (some ".")
  have haudience : (Query.completion ⟨0, 0⟩ (some ".")).audience mixedCalls "file:///a.py" "py" =
      [⟨1, .completion, .language "py", 4, "p.a", ["."]⟩,
        ⟨2, .completion, .language "py", 1, "p.a", [".", ":"]⟩,
        ⟨5, .completion, .any, 3, "p.b", ["."]⟩,
        ⟨6, .completion, .language "py", 2, "p.a", ["."]⟩] := rfl
  have htracked := hmerges.tracked 0 ⟨"file:///a.py", "py", 1, "x"⟩ rfl rfl
    fun s t => t.diary = s.diary
  have hnoted := (hmerges.noted 0 ⟨"file:///a.py", "py", 1, "x"⟩ rfl rfl
    (fun s t => t.diary = s.diary) fun _ _ h => h).2
  rw [haudience] at htracked hnoted
  have hend := (htracked [{ label := "one" }, { label := "two" }] _).mpr
    ⟨[.panicked, .returned [{ label := "one" }], .failed ⟨"no", []⟩,
      .returned [{ label := "two" }]],
      .cons (Code.ends_provider rfl) (.cons
        ((Flow.ends_sync_bind _).mpr (Reaches.here.await rfl fun _ => rfl))
        (.cons (Code.ends_provider rfl) (.cons (Code.ends_provider rfl) .nil))), rfl⟩
  exact ⟨rfl, _, hend, hnoted _ _ hend⟩

/-! ## Taking the first edits -/

/-- Queries for edits: the providers that a query is for are asked, each once and in the order of
registration, up to the first one that returns some edits, or an edit of several documents; that is
the result, and without one there is none.  Nobody is asked about a document that is not tracked. -/
theorem edits_of_first {calls : List Registry.Call} {w : World (Noted χ)} (code : Code χ)
    (uri : String) (hregistry : w.api.registry = Registry.after calls) :
    (∀ options, TakesFirst code calls uri w (.formatting options) (fun edits => !edits.isEmpty)
      (fun found => found.getD []) (formatting code.noted uri options)) ∧
    ∀ position name, TakesFirst code calls uri w (.rename position name) Option.isSome Option.join
      (rename code.noted uri position name) :=
  ⟨fun _ => takesFirst_consult code uri hregistry _,
    fun _ _ => takesFirst_consult code uri hregistry _⟩

/-- The formatter that fails and the one without edits are passed over, and the one behind the third
is not asked. -/
theorem edits_of_first_formatter : mixedWorld.api.registry = Registry.after mixedCalls ∧
    ∃ u, (formatting mixedCode.noted "file:///a.py" {}).Ends
        (fun s t => t.diary = s.diary) mixedWorld [firstCharacter "n"] u ∧
      u.diary = [3, 1, 2].map fun provider => .asked provider 0 (.formatting {}) := by
  have hfirst := (@edits_of_first Unit mixedCalls mixedWorld mixedCode "file:///a.py" rfl).1 {}
  have haudience : (Query.formatting {}).audience mixedCalls "file:///a.py" "py" =
      [⟨8, .formatting, .any, 3, "p.a", []⟩, ⟨9, .formatting, .any, 1, "p.a", []⟩,
        ⟨10, .formatting, .any, 2, "p.a", []⟩] ++ [⟨11, .formatting, .any, 1, "p.a", []⟩] := rfl
  have htracked := hfirst.tracked 0 ⟨"file:///a.py", "py", 1, "x"⟩ rfl rfl
    fun s t => t.diary = s.diary
  have hnoted := (hfirst.noted 0 ⟨"file:///a.py", "py", 1, "x"⟩ rfl rfl
    (fun s t => t.diary = s.diary) fun _ _ h => h).2
  have hasked : Asked (fun s t => t.diary = s.diary)
      (fun r => mixedCode.noted.provider r.provider 0 (.formatting {}))
      [⟨8, .formatting, .any, 3, "p.a", []⟩, ⟨9, .formatting, .any, 1, "p.a", []⟩,
        ⟨10, .formatting, .any, 2, "p.a", []⟩] mixedWorld
      ([.failed ⟨"no", []⟩, .returned []] ++ [.returned [firstCharacter "n"]]) _ :=
    .cons (Code.ends_provider rfl) (.cons (Code.ends_provider rfl)
      (.cons (Code.ends_provider rfl) .nil))
  have hchosen : Chosen (fun edits : List TextEdit => !edits.isEmpty)
      ([.failed ⟨"no", []⟩, .returned []] ++ [.returned [firstCharacter "n"]])
      [⟨11, .formatting, .any, 1, "p.a", []⟩] (some [firstCharacter "n"]) :=
    .found rfl (by simp)
  exact ⟨rfl, _, (htracked [firstCharacter "n"] _).mpr
    ⟨_, _, _, _, haudience, hasked, hchosen, rfl⟩, hnoted _ _ _ hasked⟩

/-- Whether there is a change in an edit of several documents. -/
def hasChange (edit : WorkspaceEdit) : Bool :=
  edit.changes.values.any fun edits => !edits.isEmpty

/-- A rename ends at an edit without any change, although the provider behind has one with a
change. -/
theorem rename_stops_at_nothing :
    (∃ u, (rename mixedCode.noted "file:///a.py" ⟨0, 0⟩ "n").Ends
        (fun s t => t.diary = s.diary) mixedWorld (some {}) u ∧
      u.diary = [.asked 1 0 (.rename ⟨0, 0⟩ "n")]) ∧
    ¬ TakesFirst mixedCode mixedCalls "file:///a.py" mixedWorld (.rename ⟨0, 0⟩ "n")
      (fun found => found.any hasChange) Option.join
      (rename mixedCode.noted "file:///a.py" ⟨0, 0⟩ "n") := by
  have hfirst : TakesFirst mixedCode mixedCalls "file:///a.py" mixedWorld (.rename ⟨0, 0⟩ "n")
      Option.isSome Option.join (rename mixedCode.noted "file:///a.py" ⟨0, 0⟩ "n") :=
    takesFirst_consult mixedCode "file:///a.py" rfl _
  have hasked : Asked (fun s t => t.diary = s.diary)
      (fun r => mixedCode.noted.provider r.provider 0 (.rename ⟨0, 0⟩ "n"))
      [⟨12, .rename, .language "py", 1, "p.a", []⟩] mixedWorld [.returned (some {})] _ :=
    .cons (Code.ends_provider rfl) .nil
  have hend := (hfirst.tracked 0 ⟨"file:///a.py", "py", 1, "x"⟩ rfl rfl _ (some {}) _).mpr
    ⟨_, [⟨13, .rename, .language "py", 2, "p.a", []⟩], _, some (some {}), rfl, hasked,
      .first rfl _, rfl⟩
  refine ⟨⟨_, hend, (hfirst.noted 0 ⟨"file:///a.py", "py", 1, "x"⟩ rfl rfl _
    fun _ _ h => h).2 _ _ _ hasked⟩, fun hclaim => ?_⟩
  obtain ⟨_, _, _, found, -, -, hchosen, hfound⟩ :=
    (hclaim.tracked 0 ⟨"file:///a.py", "py", 1, "x"⟩ rfl rfl _ _ _).mp hend
  cases hchosen with
  | @found _ _ answer hgood _ =>
      obtain rfl : some ({} : WorkspaceEdit) = answer := hfound
      cases hgood
  | nothing => cases hfound

end World

end EditorHost
