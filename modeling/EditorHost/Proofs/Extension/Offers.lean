import EditorHost.Proofs.Extension.Stories
import EditorHost.Proofs.Table

/-!
# What extensions offer

An extension registers commands, providers and status bar items, one after another, and hands some
of the handles over to be undone later.  Registering fails only for a command whose name is taken.

Undoing the handles that were handed over, the last one first, takes back the commands that were
registered with them: the last registration is undone in the state that it made, but for the
commands whose handles were kept, and these have other names.  So the names that are still taken
afterwards are those of the commands left behind, and registering everything once more comes as far
as the first of these.

## Contents

* `Offer`, `Offering` and `Holdings`: what is offered, and what is registered for an extension.
* `Api.offerAll` registers one thing after another; `Api.offerAll_cases` says how that ends, and
  `Api.OfferedAll` which commands there are if it succeeds.
* `Api.takenBack_disposeEach`: what the handles undo.
* `Api.offerAll_again`: what comes of registering everything once more.
* `Api.offerAll_round`: the same behind a `Api.round` of registering, undoing and releasing.
-/

namespace EditorHost

variable {χ : Type}

/-- Something that an extension registers. -/
inductive Offer where
  | command (name : String) (handler : Callback)
  | provider (capability : Capability) (selector : Selector) (callback : Callback)
      (triggers : List String)
  | item (side : Side) (priority : Int)

/-- Something that an extension registers on its activation, and whether it hands the handle to its
context. -/
structure Offering where
  offer : Offer
  isHandedOver : Bool

/-! ## Holdings -/

/-- What is registered for an extension, without the numbers under which it is. -/
structure Holdings where
  command? : String → Option Command
  providers : List Registration
  items : List StatusEntry

namespace Holdings

/-- Nothing at all. -/
def none : Holdings := ⟨fun _ => .none, [], []⟩

/-- One thing more, registered for an extension. -/
def add (id : String) (h : Holdings) : Offer → Holdings
  | .command name handler =>
    { h with command? := fun other =>
        if other = name then some ⟨0, id, handler⟩ else h.command? other }
  | .provider capability selector callback triggers =>
    { h with providers := h.providers ++ [⟨0, capability, selector, callback, id, triggers⟩] }
  | .item side priority =>
    { h with items := h.items ++
        [⟨{ id := "", extension := id, text := "", side, priority }, false⟩] }

/-- The commands with some names, and nothing else. -/
def only (names : List String) (h : Holdings) : Holdings where
  command? name := if name ∈ names then h.command? name else .none
  providers := []
  items := []

/-- One thing after another. -/
def addAll (id : String) (h : Holdings) (os : List Offering) : Holdings :=
  os.foldl (fun h o => h.add id o.offer) h

end Holdings

namespace Api

/-- What is registered for an extension. -/
def holdings (api : Api) (id : String) : Holdings where
  command? name := ((api.commands.entries.find? name).filter fun c => c.extension == id).map
    fun c => { c with token := 0 }
  providers := (api.registry.live.filter fun r => r.extension == id).map fun r => { r with id := 0 }
  items := (api.statusBar.entries.filter fun e => e.item.extension == id).map
    fun e => { e with item := { e.item with id := "" } }

/-- Nothing but commands is left of an extension that is released. -/
theorem holdings_release (api : Api) (id : String) :
    (api.release id).2.holdings id = ⟨(api.holdings id).command?, [], []⟩ := by
  obtain ⟨hlive, hentries⟩ := api.mem_release id
  have hproviders : ((api.release id).2.registry.live.filter fun r => r.extension == id) = [] :=
    List.filter_eq_nil_iff.mpr fun r hr => by simp [hlive r hr]
  have hitems : ((api.release id).2.statusBar.entries.filter fun e =>
      e.item.extension == id) = [] :=
    List.filter_eq_nil_iff.mpr fun e he => by simp [hentries e he]
  rw [holdings, hproviders, hitems]
  rfl

end Api

/-! ## Registering -/

namespace Offer

/-- Registers something for an extension. -/
def register (id : String) : Offer → Api → Except Fault HandleId × Api
  | .command name handler, api => api.registerCommand name id handler
  | .provider capability selector callback triggers, api =>
    let (handle, api) := api.registerProvider capability selector callback id triggers
    (.ok handle, api)
  | .item side priority, api =>
    let (number, api) := api.createStatusItem id side priority
    let (handle, api) := api.keep (.statusItem number)
    (.ok handle, api)

/-- The name of a command. -/
def name? : Offer → Option String
  | .command name _ => some name
  | _ => none

/-- The command that is registered under a name, given the state before. -/
def made? (id : String) (api : Api) (name : String) : Offer → Option Command
  | .command other handler =>
    if name = other then some ⟨api.commands.nextToken, id, handler⟩ else none
  | _ => none

theorem made?_of_ne {id : String} {api : Api} {name : String} {o : Offer}
    (h : o.name? ≠ some name) : o.made? id api name = none := by
  cases o with
  | command other handler => exact if_neg fun heq => h (congrArg some heq.symm)
  | _ => rfl

theorem exists_made? (id : String) (api : Api) {name : String} {o : Offer}
    (h : o.name? = some name) : ∃ command, o.made? id api name = some command ∧
      command.extension = id ∧ command.token = api.commands.nextToken := by
  cases o with
  | command other handler =>
      cases h
      exact ⟨_, if_pos rfl, rfl, rfl⟩
  | _ => cases h

/-- What undoes it, given the state in which it is registered. -/
def undo (api : Api) : Offer → Undo
  | .command name _ => .command name api.commands.nextToken
  | .provider _ _ _ _ => .registration (api.registry.count + 1)
  | .item _ _ => .statusItem s!"status-item-{api.statusBar.created}"

/-- Something has been registered, with a handle that undoes it. -/
structure Registered (id : String) (o : Offer) (api api' : Api) : Prop where
  free : ∀ name, o.name? = some name → api.commands.entries.find? name = .none
  handles : api'.handles = api.handles ++ [some (o.undo api)]
  commands : ∀ name, api'.commands.entries.find? name =
    (o.made? id api name).or (api.commands.entries.find? name)
  holdings : api'.holdings id = (api.holdings id).add id o

theorem Registered.find?_of_ne {id name : String} {o : Offer} {api api' : Api}
    (h : o.Registered id api api') (hname : o.name? ≠ some name) :
    api'.commands.entries.find? name = api.commands.entries.find? name := by
  rw [h.commands, made?_of_ne hname, Option.none_or]

theorem Registered.find?_own {id name : String} {o : Offer} {api api' : Api}
    (h : o.Registered id api api') (hname : o.name? = some name) :
    ∃ command, api'.commands.entries.find? name = some command ∧ command.extension = id ∧
      command.token = api.commands.nextToken := by
  obtain ⟨command, hcommand, hown⟩ := exists_made? id api hname
  exact ⟨command, by rw [h.commands, hcommand, Option.some_or], hown⟩

/-- Anything can be registered but a command whose name is taken. -/
theorem register_cases (id : String) (o : Offer) (api : Api) :
    (∃ api', o.register id api = (.ok api.handles.length, api') ∧ o.Registered id api api') ∨
    ∃ name handler command commands, o = .command name handler ∧
      api.commands.entries.find? name = some command ∧
      commands.entries = api.commands.entries ∧ o.register id api =
        (.error (.general s!"Command '{name}' already registered by {command.extension}"),
          { api with commands }) := by
  cases o with
  | command name handler =>
      cases hfind : api.commands.entries.find? name with
      | none =>
          have hregister : (Offer.command name handler).register id api = (.ok api.handles.length,
              ({ api with commands := ⟨api.commands.nextToken + 1,
                api.commands.entries.insert name ⟨api.commands.nextToken, id, handler⟩⟩ } :
                Api).keep (.command name api.commands.nextToken) |>.2) := by
            simp only [register, Api.registerCommand, Commands.register, hfind]
            rfl
          refine .inl ⟨_, hregister, ?_, rfl, fun other => ?_, ?_⟩
          · rintro _ ⟨rfl⟩
            exact hfind
          · refine (Table.find?_insert _ name other _).trans ?_
            rw [made?]
            split <;> rfl
          · simp only [Api.holdings, Api.keep, Holdings.add, Table.find?_insert]
            congr 1
            funext other
            split
            · simp [Option.filter]
            · rfl
      | some command =>
          refine .inr ⟨name, handler, command, { api.commands with
            nextToken := api.commands.nextToken + 1 }, rfl, hfind, rfl, ?_⟩
          simp only [register, Api.registerCommand, Commands.register, hfind]
  | provider capability selector callback triggers =>
      refine .inl ⟨_, rfl, ?_, rfl, fun _ => rfl, ?_⟩
      · intro _ hname
        cases hname
      · simp [Api.holdings, Holdings.add]
  | item side priority =>
      refine .inl ⟨_, rfl, ?_, rfl, fun _ => rfl, ?_⟩
      · intro _ hname
        cases hname
      · simp [Api.holdings, Holdings.add]

end Offer

/-! ## Registering one thing after another -/

variable {id name : String} {o : Offering} {os done rest : List Offering} {api api' : Api}
  {handles : List HandleId}

/-- The names of the commands that are offered. -/
def Offering.names (os : List Offering) : List String := os.filterMap fun o => o.offer.name?

/-- The names of the commands whose handles are kept. -/
def Offering.leftBehind (os : List Offering) : List String :=
  names (os.filter fun o => !o.isHandedOver)

namespace Offering

theorem leftBehind_cons_handed (h : o.isHandedOver = true) :
    leftBehind (o :: os) = leftBehind os := by
  rw [leftBehind, List.filter_cons_of_neg (by simp [h]), leftBehind]

theorem mem_leftBehind_cons_kept (h : o.isHandedOver = false) :
    name ∈ leftBehind (o :: os) ↔ o.offer.name? = some name ∨ name ∈ leftBehind os := by
  rw [leftBehind, List.filter_cons_of_pos (by simp [h]), leftBehind]
  simp [names]

theorem leftBehind_append (os os' : List Offering) :
    leftBehind (os ++ os') = leftBehind os ++ leftBehind os' := by
  simp [leftBehind, names]

theorem leftBehind_subset (os : List Offering) : leftBehind os ⊆ names os :=
  List.filterMap_subset _ List.filter_sublist.subset

end Offering

namespace Api

open Offering (names leftBehind)

/-- Registers one thing after another, up to the first that cannot be registered; gives the handles
to hand over. -/
def offerAll (id : String) : List Offering → Api → (Except Fault Unit × List HandleId) × Api
  | [], api => ((.ok (), []), api)
  | o :: os, api =>
    match o.offer.register id api with
    | (.error fault, api) => ((.error fault, []), api)
    | (.ok handle, api) =>
      let ((result, handles), api) := offerAll id os api
      ((result, if o.isHandedOver then handle :: handles else handles), api)

theorem offerAll_cons_ok {handle : HandleId} (h : o.offer.register id api = (.ok handle, api')) :
    offerAll id (o :: os) api = (((offerAll id os api').1.1,
      if o.isHandedOver then handle :: (offerAll id os api').1.2 else (offerAll id os api').1.2),
      (offerAll id os api').2) := by
  simp only [offerAll, h]

theorem offerAll_cons_error {fault : Fault} (h : o.offer.register id api = (.error fault, api')) :
    offerAll id (o :: os) api = ((.error fault, []), api') := by
  simp only [offerAll, h]

/-- Everything is registered, or everything in front of a command whose name is taken then. -/
theorem offerAll_cases (id : String) (os : List Offering) (api : Api) :
    ((offerAll id os api).1.1 = .ok () ∧
      (offerAll id os api).2.holdings id = (api.holdings id).addAll id os) ∨
    ∃ done o rest name handler command, os = done ++ o :: rest ∧
      o.offer = .command name handler ∧ (offerAll id done api).1.1 = .ok () ∧
      (offerAll id done api).2.commands.entries.find? name = some command ∧
      (offerAll id os api).1.1 =
        .error (.general s!"Command '{name}' already registered by {command.extension}") ∧
      (offerAll id os api).2.holdings id = (api.holdings id).addAll id done := by
  induction os generalizing api with
  | nil => exact .inl ⟨rfl, rfl⟩
  | cons o os ih =>
      rcases o.offer.register_cases id api with
        ⟨api', hregister, hdone⟩ |
        ⟨name, handler, command, commands, hoffer, hfind, hentries, hregister⟩
      · have hadd (os : List Offering) : (api'.holdings id).addAll id os =
            (api.holdings id).addAll id (o :: os) := by
          rw [hdone.holdings]
          rfl
        rcases ih api' with ⟨hok, hholds⟩ |
          ⟨done, o', rest, name, handler, command, rfl, hoffer, hok, hfind, herror, hholds⟩
        · rw [offerAll_cons_ok hregister]
          exact .inl ⟨hok, hholds.trans (hadd os)⟩
        · refine .inr ⟨o :: done, o', rest, name, handler, command, rfl, hoffer, ?_⟩
          rw [offerAll_cons_ok hregister, offerAll_cons_ok hregister]
          exact ⟨hok, hfind, herror, hholds.trans (hadd done)⟩
      · rw [offerAll_cons_error hregister]
        refine .inr ⟨[], o, os, name, handler, command, rfl, hoffer, rfl, hfind, rfl, ?_⟩
        simp only [holdings, hentries]
        rfl

theorem holdings_offerAll (h : (offerAll id os api).1.1 = .ok ()) :
    (offerAll id os api).2.holdings id = (api.holdings id).addAll id os := by
  rcases offerAll_cases id os api with ⟨-, hholds⟩ |
    ⟨done, o, rest, name, handler, command, -, -, -, -, herror, -⟩
  · exact hholds
  · cases h.symm.trans herror

/-- The commands behind registrations that all succeeded. -/
structure OfferedAll (id : String) (os : List Offering) (api api' : Api) : Prop where
  free : ∀ name ∈ names os, api.commands.entries.find? name = none
  nodup : (names os).Nodup
  own : ∀ name ∈ names os, ∃ command, api'.commands.entries.find? name = some command ∧
    command.extension = id
  others : ∀ name, name ∉ names os →
    api'.commands.entries.find? name = api.commands.entries.find? name

theorem offeredAll_of_ok (h : (offerAll id os api).1.1 = .ok ()) :
    OfferedAll id os api (offerAll id os api).2 := by
  induction os generalizing api with
  | nil => exact ⟨nofun, .nil, nofun, fun _ _ => rfl⟩
  | cons o os ih =>
      rcases o.offer.register_cases id api with
        ⟨next, hregister, hdone⟩ | ⟨name, handler, command, commands, -, -, -, hregister⟩
      · rw [offerAll_cons_ok hregister] at h ⊢
        obtain ⟨hfree, hnodup, hown, hothers⟩ := ih h
        cases hname : o.offer.name? with
        | none =>
            have hsame (name : String) :
                next.commands.entries.find? name = api.commands.entries.find? name :=
              hdone.find?_of_ne (by rw [hname]; nofun)
            have hnames : names (o :: os) = names os := List.filterMap_cons_none hname
            refine ⟨?_, ?_, ?_, ?_⟩ <;> rw [hnames]
            · exact fun name hmem => (hsame name).symm.trans (hfree name hmem)
            · exact hnodup
            · exact hown
            · exact fun name hmem => (hothers name hmem).trans (hsame name)
        | some own =>
            have hnames : names (o :: os) = own :: names os := List.filterMap_cons_some hname
            have hsame {name : String} (hne : name ≠ own) :
                next.commands.entries.find? name = api.commands.entries.find? name :=
              hdone.find?_of_ne fun heq => hne (Option.some.inj (heq.symm.trans hname))
            obtain ⟨command, htaken, hextension, -⟩ := hdone.find?_own hname
            have hnew : own ∉ names os := fun hmem => by
              cases htaken.symm.trans (hfree own hmem)
            refine ⟨?_, ?_, ?_, ?_⟩ <;> rw [hnames]
            · refine List.forall_mem_cons.mpr ⟨hdone.free own hname, fun name hmem => ?_⟩
              rw [← hsame fun heq => hnew (heq ▸ hmem)]
              exact hfree name hmem
            · exact List.nodup_cons.mpr ⟨hnew, hnodup⟩
            · refine List.forall_mem_cons.mpr ⟨?_, hown⟩
              exact ⟨command, (hothers own hnew).trans htaken, hextension⟩
            · intro name hmem
              exact (hothers name (List.not_mem_of_not_mem_cons hmem)).trans
                (hsame (List.ne_of_not_mem_cons hmem))
      · rw [offerAll_cons_error hregister] at h
        cases h

/-- Undoes handles, in order. -/
def disposeEach (handles : List HandleId) (api : Api) : Api :=
  handles.foldl (fun api handle => (api.dispose handle).2) api

theorem disposeEach_concat (handles : List HandleId) (handle : HandleId) (api : Api) :
    (api.disposeEach (handles ++ [handle])) = ((api.disposeEach handles).dispose handle).2 := by
  rw [disposeEach, List.foldl_append]
  rfl

/-- Undoing a registration takes out its command, if it is one and its name is still its own. -/
theorem find?_dispose {before : Api} {handle : HandleId}
    (h : api.action? handle = some (o.offer.undo before))
    (hown : ∀ own, o.offer.name? = some own → ∃ command,
      api.commands.entries.find? own = some command ∧ command.token = before.commands.nextToken)
    (name : String) : (api.dispose handle).2.commands.entries.find? name =
      if o.offer.name? = some name then none else api.commands.entries.find? name := by
  rw [dispose_of_some h]
  cases hoffer : o.offer with
  | command own handler =>
      rw [hoffer] at hown
      obtain ⟨command, hcommand, htoken⟩ := hown own rfl
      simp only [Offer.undo, undo, Commands.unregister, hcommand, htoken, if_true]
      rw [Table.find?_erase]
      simp only [Offer.name?, Option.some.injEq, eq_comm]
  | provider capability selector callback triggers => rfl
  | item side priority => rfl

theorem handles_dispose_of_ne (api : Api) {handle other : HandleId} (hne : other ≠ handle) :
    (api.dispose handle).2.handles[other]? = api.handles[other]? := by
  cases haction : api.action? handle with
  | none => rw [dispose_of_none haction]
  | some action => rw [dispose_of_some haction, handles_undo, List.getElem?_set_ne hne.symm]

/-- Behind the undoing of what was handed over, the commands are those from before but for the ones
that are left behind, and the handles from before are left alone. -/
structure TakenBack (os : List Offering) (api api' back : Api) : Prop where
  commands : ∀ name, back.commands.entries.find? name =
    if name ∈ leftBehind os then api'.commands.entries.find? name
    else api.commands.entries.find? name
  handles : ∀ handle < api.handles.length, back.handles[handle]? = api.handles[handle]?

section TakenBack

variable {next last back : Api} (hback : TakenBack os next last back)
  (hdone : o.offer.Registered id api next) (hoffered : OfferedAll id os next last)

include hdone hoffered

/-- The name of a command is not offered again. -/
theorem OfferedAll.not_mem_names {own : String} (hname : o.offer.name? = some own) :
    own ∉ names os := by
  obtain ⟨command, htaken, -⟩ := hdone.find?_own hname
  intro hmem
  cases htaken.symm.trans (hoffered.free own hmem)

include hback

omit hoffered in
theorem TakenBack.handles_before (handle : HandleId) (hmade : handle < api.handles.length) :
    back.handles[handle]? = api.handles[handle]? := by
  have hlater : handle < next.handles.length := by
    rw [hdone.handles, List.length_append]
    exact Nat.lt_add_right _ hmade
  rw [hback.handles handle hlater, hdone.handles, List.getElem?_append_left hmade]

theorem TakenBack.cons_kept (hkept : o.isHandedOver = false) :
    TakenBack (o :: os) api last back := by
  refine ⟨fun name => (hback.commands name).trans ?_, hback.handles_before hdone⟩
  by_cases hname : o.offer.name? = some name
  · have hmem : name ∈ leftBehind (o :: os) :=
      (Offering.mem_leftBehind_cons_kept hkept).mpr (.inl hname)
    rw [if_pos hmem, hoffered.others name (hoffered.not_mem_names hdone hname), ite_self]
  · have hmem : name ∈ leftBehind (o :: os) ↔ name ∈ leftBehind os := by
      simp [Offering.mem_leftBehind_cons_kept hkept, hname]
    simp only [hmem, hdone.find?_of_ne hname]

theorem TakenBack.cons_handed (hhanded : o.isHandedOver = true) :
    TakenBack (o :: os) api last (back.dispose api.handles.length).2 := by
  have haction : back.action? api.handles.length = some (o.offer.undo api) := by
    refine action?_eq_some.mpr ?_
    rw [hback.handles _ (by simp [hdone.handles]), hdone.handles]
    simp
  have hnot (own : String) (hname : o.offer.name? = some own) : own ∉ leftBehind os :=
    fun hmem => hoffered.not_mem_names hdone hname (Offering.leftBehind_subset os hmem)
  -- The command is still the one that was registered with the handle.
  have hown (own : String) (hname : o.offer.name? = some own) : ∃ command,
      back.commands.entries.find? own = some command ∧
        command.token = api.commands.nextToken := by
    obtain ⟨command, htaken, -, htoken⟩ := hdone.find?_own hname
    exact ⟨command, by rw [hback.commands, if_neg (hnot own hname), htaken], htoken⟩
  refine ⟨fun name => ?_, fun handle hmade => ?_⟩
  · rw [find?_dispose haction hown, hback.commands, Offering.leftBehind_cons_handed hhanded]
    split
    next hname => rw [if_neg (hnot name hname), hdone.free name hname]
    next hname => rw [hdone.find?_of_ne hname]
  · rw [handles_dispose_of_ne _ (Nat.ne_of_lt hmade), hback.handles_before hdone handle hmade]

end TakenBack

/-- The handles that are handed over undo what has been registered with them, when the last one
comes first. -/
theorem takenBack_disposeEach (h : offerAll id os api = ((.ok (), handles), api')) :
    TakenBack os api api' (api'.disposeEach handles.reverse) := by
  induction os generalizing api handles with
  | nil =>
      cases h
      exact ⟨fun _ => rfl, fun _ _ => rfl⟩
  | cons o os ih =>
      rcases o.offer.register_cases id api with
        ⟨next, hregister, hdone⟩ | ⟨name, handler, command, commands, -, -, -, hregister⟩
      · rw [offerAll_cons_ok hregister] at h
        have hoffered := @offeredAll_of_ok id os next
        cases hall : offerAll id os next with
        | mk found last =>
            obtain ⟨result, later⟩ := found
            rw [hall] at h hoffered
            simp only [Prod.mk.injEq] at h
            obtain ⟨⟨rfl, rfl⟩, rfl⟩ := h
            have hback := ih hall
            cases hhanded : o.isHandedOver with
            | false => exact hback.cons_kept hdone (hoffered rfl) hhanded
            | true =>
                rw [if_pos rfl, List.reverse_cons, disposeEach_concat]
                exact hback.cons_handed hdone (hoffered rfl) hhanded
      · rw [offerAll_cons_error hregister] at h
        cases h

/-- An extension that had nothing is left with nothing but the commands that are left behind. -/
theorem TakenBack.holdings {back : Api} (h : TakenBack os api api' back)
    (hnone : api.holdings id = .none) :
    (back.release id).2.holdings id = (api'.holdings id).only (leftBehind os) := by
  have hbefore (name : String) : (api.holdings id).command? name = none := by rw [hnone]; rfl
  rw [holdings_release, Holdings.only]
  congr 1
  funext name
  rw [Api.holdings]
  dsimp only
  rw [h.commands]
  split
  · rfl
  · exact hbefore name

/-- What is left behind is something. -/
theorem OfferedAll.only_ne_none (h : OfferedAll id os api api') (hne : leftBehind os ≠ []) :
    (api'.holdings id).only (leftBehind os) ≠ .none := by
  obtain ⟨name, hmem⟩ := List.exists_mem_of_ne_nil _ hne
  obtain ⟨command, hcommand, hextension⟩ := h.own name (Offering.leftBehind_subset os hmem)
  intro heq
  have hcommand? := congrFun (congrArg Holdings.command? heq) name
  rw [Holdings.only, Holdings.none] at hcommand?
  simp [hmem, Api.holdings, hcommand, Option.filter, hextension] at hcommand?

/-! ## Handles -/

theorem le_of_mem_offerAll (id : String) (os : List Offering) (api : Api) :
    ∀ handle ∈ (offerAll id os api).1.2, api.handles.length ≤ handle := by
  induction os generalizing api with
  | nil => exact nofun
  | cons o os ih =>
      rcases o.offer.register_cases id api with
        ⟨next, hregister, hdone⟩ | ⟨name, handler, command, commands, -, -, -, hregister⟩
      · have hlater : ∀ handle ∈ (offerAll id os next).1.2, api.handles.length ≤ handle := by
          intro handle hmem
          have hle := ih next handle hmem
          rw [hdone.handles, List.length_append] at hle
          exact Nat.le_of_add_right_le hle
        rw [offerAll_cons_ok hregister]
        dsimp only
        split
        · exact List.forall_mem_cons.mpr ⟨Nat.le_refl _, hlater⟩
        · exact hlater
      · rw [offerAll_cons_error hregister]
        exact nofun

/-- From a handle on, none runs code. -/
def CodelessFrom (first : HandleId) (api : Api) : Prop :=
  ∀ handle, first ≤ handle → ∀ callback, api.action? handle ≠ some (.code callback)

theorem codelessFrom_length (api : Api) : api.CodelessFrom api.handles.length := by
  intro handle hle callback h
  rw [action?, List.getElem?_eq_none hle] at h
  cases h

theorem CodelessFrom.offerAll {first : HandleId} (h : api.CodelessFrom first) (id : String)
    (os : List Offering) : (offerAll id os api).2.CodelessFrom first := by
  induction os generalizing api with
  | nil => exact h
  | cons o os ih =>
      rcases o.offer.register_cases id api with
        ⟨next, hregister, hdone⟩ | ⟨name, handler, command, commands, -, -, -, hregister⟩
      · rw [offerAll_cons_ok hregister]
        refine ih fun handle hle callback haction => ?_
        rw [action?_eq_some, hdone.handles, List.getElem?_append] at haction
        split at haction
        · exact h handle hle callback (action?_eq_some.mpr haction)
        · have hundo := List.mem_singleton.mp (List.mem_of_getElem? haction)
          cases hoffer : o.offer <;> rw [hoffer] at hundo <;> cases hundo
      · rw [offerAll_cons_error hregister]
        exact h

theorem CodelessFrom.dispose {first : HandleId} (h : api.CodelessFrom first) (handle : HandleId) :
    (api.dispose handle).2.CodelessFrom first := by
  intro other hle callback haction
  cases hbefore : api.action? handle with
  | none =>
      rw [dispose_of_none hbefore] at haction
      exact h other hle callback haction
  | some action =>
      rw [action?_eq_some, dispose_of_some hbefore, handles_undo, List.getElem?_set] at haction
      split at haction
      · split at haction <;> simp at haction
      · exact h other hle callback (action?_eq_some.mpr haction)

/-! ## Registering again -/

theorem not_mem_names_of_nodup (hnodup : (names (done ++ o :: rest)).Nodup)
    (hname : o.offer.name? = some name) : name ∉ names done ∧ name ∉ names rest := by
  have hnames : names (done ++ o :: rest) = names done ++ name :: names rest :=
    List.filterMap_append.trans (congrArg _ (List.filterMap_cons_some hname))
  rw [hnames] at hnodup
  obtain ⟨-, hlater, hapart⟩ := List.nodup_append.mp hnodup
  exact ⟨fun hmem => hapart name hmem name List.mem_cons_self rfl, (List.nodup_cons.mp hlater).1⟩

/-- What is offered under a name once is left behind under it only if its handle is kept. -/
theorem kept_of_mem_leftBehind (hnodup : (names (done ++ o :: rest)).Nodup)
    (hname : o.offer.name? = some name) (hmem : name ∈ leftBehind (done ++ o :: rest)) :
    o.isHandedOver = false := by
  obtain ⟨hbefore, hbehind⟩ := not_mem_names_of_nodup hnodup hname
  rw [Offering.leftBehind_append] at hmem
  cases hhanded : o.isHandedOver with
  | false => rfl
  | true =>
      rw [Offering.leftBehind_cons_handed hhanded] at hmem
      rcases List.mem_append.mp hmem with hmem | hmem
      · exact absurd (Offering.leftBehind_subset done hmem) hbefore
      · exact absurd (Offering.leftBehind_subset rest hmem) hbehind

/-- Where those names are taken that were left behind, everything is registered exactly if there are
none, and otherwise everything in front of the first command that was left behind. -/
theorem offerAll_again {again : Api} (hnodup : (names os).Nodup)
    (hleft : ∀ name ∈ leftBehind os, ∃ command,
      again.commands.entries.find? name = some command ∧ command.extension = id)
    (hgone : ∀ name ∈ names os, name ∉ leftBehind os →
      again.commands.entries.find? name = none) :
    (leftBehind os = [] → (offerAll id os again).1.1 = .ok () ∧
      (offerAll id os again).2.holdings id = (again.holdings id).addAll id os) ∧
    (leftBehind os ≠ [] → ∃ done rest name handler,
      os = done ++ ⟨.command name handler, false⟩ :: rest ∧ leftBehind done = [] ∧
      (offerAll id os again).1.1 =
        .error (.general s!"Command '{name}' already registered by {id}") ∧
      (offerAll id os again).2.holdings id = (again.holdings id).addAll id done) := by
  -- What has been registered was not left behind, since its name was free.
  have hnothing {done : List Offering} (hdone : (offerAll id done again).1.1 = .ok ())
      (hsubset : leftBehind done ⊆ leftBehind os) : leftBehind done = [] := by
    refine List.eq_nil_iff_forall_not_mem.mpr fun name hmem => ?_
    obtain ⟨command, htaken, -⟩ := hleft name (hsubset hmem)
    cases htaken.symm.trans
      ((offeredAll_of_ok hdone).free name (Offering.leftBehind_subset done hmem))
  rcases offerAll_cases id os again with ⟨hdone, hholds⟩ |
    ⟨done, o, rest, name, handler, command, rfl, hoffer, hdone, hfind, herror, hholds⟩
  · exact ⟨fun _ => ⟨hdone, hholds⟩, fun hne => absurd (hnothing hdone (List.Subset.refl _)) hne⟩
  · have hname : o.offer.name? = some name := by rw [hoffer]; rfl
    have htaken : again.commands.entries.find? name = some command :=
      ((offeredAll_of_ok hdone).others name (not_mem_names_of_nodup hnodup hname).1).symm.trans
        hfind
    have hmem : name ∈ leftBehind (done ++ o :: rest) := by
      refine Decidable.byContradiction fun hnot => ?_
      have hoffered : name ∈ names (done ++ o :: rest) :=
        List.mem_filterMap.mpr ⟨o, List.mem_append_right _ List.mem_cons_self, hname⟩
      cases htaken.symm.trans (hgone name hoffered hnot)
    refine ⟨fun hnil => absurd (hnil ▸ hmem) List.not_mem_nil, fun _ => ?_⟩
    obtain ⟨command', htaken', hextension⟩ := hleft name hmem
    obtain rfl := Option.some.inj (htaken'.symm.trans htaken)
    have ho : o = ⟨.command name handler, false⟩ := by
      rw [← hoffer, ← kept_of_mem_leftBehind hnodup hname hmem]
    have hsubset : leftBehind done ⊆ leftBehind (done ++ o :: rest) := by
      rw [Offering.leftBehind_append]
      exact List.subset_append_left _ _
    rw [hextension] at herror
    exact ⟨done, rest, name, handler, by rw [ho], hnothing hdone hsubset, herror, hholds⟩

/-! ## A whole round -/

/-- What there is when everything has been registered, what was handed over has been undone, and
the extension has been released. -/
def round (id : String) (os : List Offering) (api : Api) : Api :=
  (((offerAll id os api).2.disposeEach (offerAll id os api).1.2.reverse).release id).2

theorem takenBack_of_ok (hok : (offerAll id os api).1.1 = .ok ()) :
    TakenBack os api (offerAll id os api).2
      ((offerAll id os api).2.disposeEach (offerAll id os api).1.2.reverse) :=
  takenBack_disposeEach (by rw [← hok])

/-- The commands behind a round are those from before and those that are left behind. -/
theorem commands_round (hok : (offerAll id os api).1.1 = .ok ()) (name : String) :
    (round id os api).commands.entries.find? name =
      if name ∈ leftBehind os then (offerAll id os api).2.commands.entries.find? name
      else api.commands.entries.find? name :=
  (takenBack_of_ok hok).commands name

/-- Nothing but the commands that are left behind is registered behind a round. -/
theorem holdings_round (hok : (offerAll id os api).1.1 = .ok ()) (hnone : api.holdings id = .none) :
    (round id os api).holdings id = ((offerAll id os api).2.holdings id).only (leftBehind os) :=
  (takenBack_of_ok hok).holdings hnone

/-- Behind a round everything is registered as before exactly if no command was left behind. -/
theorem offerAll_round (hok : (offerAll id os api).1.1 = .ok ()) (hnone : api.holdings id = .none) :
    (leftBehind os = [] → (round id os api).holdings id = .none ∧
      (offerAll id os (round id os api)).1.1 = .ok () ∧
      (offerAll id os (round id os api)).2.holdings id = (offerAll id os api).2.holdings id) ∧
    (leftBehind os ≠ [] → (round id os api).holdings id ≠ .none ∧ ∃ done rest name handler,
      os = done ++ ⟨.command name handler, false⟩ :: rest ∧ leftBehind done = [] ∧
      (offerAll id os (round id os api)).1.1 =
        .error (.general s!"Command '{name}' already registered by {id}") ∧
      (offerAll id os (round id os api)).2.holdings id =
        ((round id os api).holdings id).addAll id done) := by
  have hoffered := offeredAll_of_ok hok
  obtain ⟨hsame, hless⟩ := @offerAll_again id os (round id os api) hoffered.nodup
    (fun name hmem => by
      rw [commands_round hok, if_pos hmem]
      exact hoffered.own name (Offering.leftBehind_subset os hmem))
    (fun name hmem hnot => by
      rw [commands_round hok, if_neg hnot]
      exact hoffered.free name hmem)
  refine ⟨fun hnil => ?_, fun hne => ⟨?_, hless hne⟩⟩
  · obtain ⟨hagain, hholds⟩ := hsame hnil
    have hnothing : (round id os api).holdings id = .none := by
      rw [holdings_round hok hnone, hnil]
      rfl
    exact ⟨hnothing, hagain, by rw [hholds, hnothing, holdings_offerAll hok, hnone]⟩
  · rw [holdings_round hok hnone]
    exact hoffered.only_ne_none hne

end Api

end EditorHost
