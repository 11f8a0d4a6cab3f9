import EditorHost.Proofs.Extension.Stories
import EditorHost.Proofs.Table

/-!
# Commands and their handles

Whoever registers a command gets a handle, which may be disposed of any number of times, by any
clone, and while the name has long been registered by someone else.

The calls are those of a run on one desk, where it is written down which registrations succeeded,
which of them were disposed of, and which handlers were run.  A handler calls what it likes before
it is done, and others call meanwhile, so the calls are nested: they are a tree.

Behind every run the look-ups say the same as the records of the desk, and so do the answers of
each further call (`Desk.Exclusive`).  What the host does not keep to is that a panic of a handler
is a failure of the command: a handler that panics before its work starts takes the call with it
(`panics_early`).

## Contents

* `Call`, `Desk` and what a run does to a desk.
* `Desk.Sound` is kept by each call, and so by a run.
* What comes of a further call, and all together in `exclusive_performAll`.
-/

namespace EditorHost

namespace Commands

/-! ## Running a command -/

/-- What a command comes to, by what came of its handler. -/
def passedOn (name : String) : Option (Outcome Json) → Outcome Json
  | none => .panicked
  | some .panicked => .failed ⟨s!"Command '{name}' panicked", []⟩
  | some outcome => outcome

section Execute

variable {m : Type → Type} [Monad m] {c : Commands} {name : String}

/-- The handler of a name that is taken is run once, and what comes of it is passed on. -/
theorem execute_of_find? [LawfulMonad m] {command : Command}
    (h : c.entries.find? name = some command) (args : List Json)
    (call : Callback → List Json → m (Option (Outcome Json))) :
    c.execute name args call = passedOn name <$> call command.handler args := by
  rw [execute, h, map_eq_pure_bind]
  refine bind_congr fun outcome => ?_
  rcases outcome with _ | _ | _ | _ <;> rfl

theorem execute_of_find?_none (h : c.entries.find? name = none) (args : List Json)
    (call : Callback → List Json → m (Option (Outcome Json))) :
    c.execute name args call = pure (.returned .null) := by
  rw [execute, h]

end Execute

/-! ## Calls on a desk -/

/-- A call of someone who works with commands. -/
inductive Call where
  | register (name extension : String) (handler : Callback)
  /-- Undoes the registration that was the `n`-th to succeed, by any clone of its handle. -/
  | dispose (n : Nat)
  /-- Runs a command.  If that runs a handler, `during` are the calls before the handler is done,
  its own and those of others, and `outcome` is what comes of it. -/
  | execute (name : String) (args : List Json) (during : List Call)
    (outcome : Option (Outcome Json))

inductive Answer where
  /-- The registration is the `n`-th that succeeded. -/
  | registered (n : Nat)
  | refused (fault : Fault)
  | disposed
  | executed (outcome : Outcome Json)
  deriving DecidableEq, Repr

/-- A registration that succeeded. -/
structure Record where
  name : String
  extension : String
  handler : Callback
  handle : HandleId
  disposed : Bool := false
  deriving DecidableEq, Repr

structure Desk where
  api : Api
  records : List Record := []
  /-- The handlers that were run, each with its arguments. -/
  runs : List (Callback × List Json) := []

namespace Desk

def register (name extension : String) (handler : Callback) (d : Desk) : Answer × Desk :=
  match d.api.registerCommand name extension handler with
  | (.ok handle, api) => (.registered d.records.length,
      { d with api, records := d.records ++ [⟨name, extension, handler, handle, false⟩] })
  | (.error fault, api) => (.refused fault, { d with api })

def dispose (n : Nat) (d : Desk) : Answer × Desk :=
  match d.records[n]? with
  | none => (.disposed, d)
  | some r => (.disposed, { d with
      api := (d.api.dispose r.handle).2
      records := d.records.modify n fun r => { r with disposed := true } })

/-- Runs a command whose handler does something to the desk. -/
def execute (name : String) (args : List Json) (work : Desk → Option (Outcome Json) × Desk)
    (d : Desk) : Answer × Desk :=
  let run : StateM Desk (Outcome Json) := d.api.commands.execute name args fun handler args d =>
    work { d with runs := d.runs ++ [(handler, args)] }
  let (outcome, d) := run d
  (.executed outcome, d)

end Desk

mutual

def Call.perform : Call → Desk → Answer × Desk
  | .register name extension handler, d => d.register name extension handler
  | .dispose n, d => d.dispose n
  | .execute name args during outcome, d =>
    d.execute name args fun d => (outcome, Call.performAll during d)

def Call.performAll : List Call → Desk → Desk
  | [], d => d
  | call :: calls, d => Call.performAll calls (call.perform d).2

end

/-! ## Registrations that last -/

namespace Desk

/-- The `n`-th registration has not been disposed of. -/
def Lasts (d : Desk) (n : Nat) (r : Record) : Prop := d.records[n]? = some r ∧ r.disposed = false

/-- A name is free if no registration of it lasts. -/
def Free (d : Desk) (name : String) : Prop := ∀ n r, d.Lasts n r → r.name ≠ name

/-- A desk that has been called in vain: the next token is another. -/
def skipToken (d : Desk) : Desk :=
  { d with api := { d.api with commands :=
    { d.api.commands with nextToken := d.api.commands.nextToken + 1 } } }

/-- How the records of a desk agree with its registrations and handles. -/
structure Sound (d : Desk) : Prop where
  lasting : ∀ {n : Nat} {r : Record}, d.Lasts n r → ∃ token,
    d.api.handles[r.handle]? = some (some (.command r.name token)) ∧
      d.api.commands.entries.find? r.name = some ⟨token, r.extension, r.handler⟩
  disposed : ∀ {n : Nat} {r : Record}, d.records[n]? = some r → r.disposed = true →
    d.api.handles[r.handle]? = some none
  holder : ∀ {name : String} {command : Command},
    d.api.commands.entries.find? name = some command → ∃ n r, d.Lasts n r ∧ r.name = name
  single : ∀ {n m : Nat} {r s : Record}, d.Lasts n r → d.Lasts m s → r.name = s.name → n = m
  handles : ∀ {n m : Nat} {r s : Record}, d.records[n]? = some r → d.records[m]? = some s →
    r.handle = s.handle → n = m

namespace Sound

variable {d : Desk} {name : String}

/-- A handle that was given out has been made. -/
theorem handle_lt (h : d.Sound) {n : Nat} {r : Record} (hr : d.records[n]? = some r) :
    r.handle < d.api.handles.length := by
  cases hdisposed : r.disposed with
  | true => exact (List.getElem?_eq_some_iff.mp (h.disposed hr hdisposed)).1
  | false =>
      obtain ⟨token, hhandle, -⟩ := h.lasting ⟨hr, hdisposed⟩
      exact (List.getElem?_eq_some_iff.mp hhandle).1

theorem find?_eq_none_iff (h : d.Sound) :
    d.api.commands.entries.find? name = none ↔ d.Free name := by
  constructor
  · rintro hnone n r hr rfl
    obtain ⟨token, -, hfind⟩ := h.lasting hr
    rw [hnone] at hfind
    cases hfind
  · intro hfree
    cases hfind : d.api.commands.entries.find? name with
    | none => rfl
    | some command =>
        obtain ⟨n, r, hr, hname⟩ := h.holder hfind
        exact absurd hname (hfree n r hr)

theorem has_iff (h : d.Sound) :
    d.api.commands.entries.has name = true ↔ ∃ n r, d.Lasts n r ∧ r.name = name := by
  constructor
  · intro hhas
    obtain ⟨command, hfind⟩ := Option.isSome_iff_exists.mp hhas
    exact h.holder hfind
  · rintro ⟨n, r, hr, rfl⟩
    obtain ⟨token, -, hfind⟩ := h.lasting hr
    rw [Table.has, hfind, Option.isSome_some]

end Sound

/-! ## Registering -/

/-- A name that is taken is refused to everyone else. -/
theorem register_of_lasts {d : Desk} (h : d.Sound) {n : Nat} {r : Record} (hr : d.Lasts n r)
    (extension : String) (handler : Callback) : d.register r.name extension handler =
      (.refused (.general s!"Command '{r.name}' already registered by {r.extension}"),
        d.skipToken) := by
  obtain ⟨token, -, hfind⟩ := h.lasting hr
  simp only [register, Api.registerCommand, Commands.register, hfind]
  rfl

/-- The record of a registration that succeeds now. -/
def newRecord (d : Desk) (name extension : String) (handler : Callback) : Record :=
  { name, extension, handler, handle := d.api.handles.length }

/-- The desk behind a registration that succeeds. -/
def taken (d : Desk) (name extension : String) (handler : Callback) : Desk :=
  let token := d.api.commands.nextToken
  { d with
    api := { d.api with
      commands := ⟨token + 1, d.api.commands.entries.insert name ⟨token, extension, handler⟩⟩
      handles := d.api.handles ++ [some (.command name token)] }
    records := d.records ++ [d.newRecord name extension handler] }

theorem register_of_free {d : Desk} (h : d.Sound) {name : String} (hfree : d.Free name)
    (extension : String) (handler : Callback) : d.register name extension handler =
      (.registered d.records.length, d.taken name extension handler) := by
  simp only [register, Api.registerCommand, Commands.register, h.find?_eq_none_iff.mpr hfree]
  rfl

section Taken

variable {d : Desk} {name extension : String} {handler : Callback} {n : Nat} {r : Record}

theorem find?_taken (other : String) :
    (d.taken name extension handler).api.commands.entries.find? other =
      if other = name then some ⟨d.api.commands.nextToken, extension, handler⟩
      else d.api.commands.entries.find? other :=
  Table.find?_insert ..

theorem handles_taken {handle : HandleId} {action : Option Undo}
    (h : d.api.handles[handle]? = some action) :
    (d.taken name extension handler).api.handles[handle]? = some action :=
  (List.getElem?_append_left (List.getElem?_eq_some_iff.mp h).1).trans h

theorem records_taken (h : (d.taken name extension handler).records[n]? = some r) :
    d.records[n]? = some r ∨ n = d.records.length ∧ r = d.newRecord name extension handler :=
  Interleaving.getElem?_concat_cases h

theorem lasts_taken (h : (d.taken name extension handler).Lasts n r) :
    d.Lasts n r ∨ n = d.records.length ∧ r = d.newRecord name extension handler :=
  (records_taken h.1).imp_left fun hr => ⟨hr, h.2⟩

theorem Lasts.taken (h : d.Lasts n r) : (d.taken name extension handler).Lasts n r :=
  ⟨(List.getElem?_append_left (List.getElem?_eq_some_iff.mp h.1).1).trans h.1, h.2⟩

theorem lasts_newRecord :
    (d.taken name extension handler).Lasts d.records.length (d.newRecord name extension handler) :=
  ⟨List.getElem?_concat_length .., rfl⟩

theorem Sound.taken (h : d.Sound) (hfree : d.Free name) :
    (d.taken name extension handler).Sound where
  lasting hr := by
    obtain hr | ⟨rfl, rfl⟩ := lasts_taken hr
    · obtain ⟨token, hhandle, hcommand⟩ := h.lasting hr
      exact ⟨token, handles_taken hhandle, by rw [find?_taken, if_neg (hfree _ _ hr), hcommand]⟩
    · exact ⟨d.api.commands.nextToken, List.getElem?_concat_length ..,
        (find?_taken name).trans (if_pos rfl)⟩
  disposed hr hdisposed := by
    obtain hr | ⟨rfl, rfl⟩ := records_taken hr
    · exact handles_taken (h.disposed hr hdisposed)
    · cases hdisposed
  holder hcommand := by
    rw [find?_taken] at hcommand
    split at hcommand
    next heq => exact ⟨_, _, lasts_newRecord, heq.symm⟩
    · obtain ⟨n, r, hr, hname⟩ := h.holder hcommand
      exact ⟨n, r, hr.taken, hname⟩
  single hr hs hname := by
    obtain hr | ⟨rfl, rfl⟩ := lasts_taken hr <;> obtain hs | ⟨rfl, rfl⟩ := lasts_taken hs
    · exact h.single hr hs hname
    · exact absurd hname (hfree _ _ hr)
    · exact absurd hname.symm (hfree _ _ hs)
    · rfl
  handles hr hs hhandle := by
    obtain hr | ⟨rfl, rfl⟩ := records_taken hr <;> obtain hs | ⟨rfl, rfl⟩ := records_taken hs
    · exact h.handles hr hs hhandle
    · exact absurd hhandle (Nat.ne_of_lt (h.handle_lt hr))
    · exact absurd hhandle.symm (Nat.ne_of_lt (h.handle_lt hs))
    · rfl

end Taken

/-! ## Disposing -/

/-- The desk behind the first disposal of a registration. -/
def dropped (d : Desk) (n : Nat) (r : Record) : Desk :=
  { d with
    api := { d.api with
      commands := { d.api.commands with entries := d.api.commands.entries.erase r.name }
      handles := d.api.handles.set r.handle none }
    records := d.records.modify n fun r => { r with disposed := true } }

theorem dispose_of_lasts {d : Desk} (h : d.Sound) {n : Nat} {r : Record} (hr : d.Lasts n r) :
    d.dispose n = (.disposed, d.dropped n r) := by
  obtain ⟨token, hhandle, hfind⟩ := h.lasting hr
  simp only [dispose, hr.1]
  rw [Api.dispose_of_some (Api.action?_eq_some.mpr hhandle)]
  simp only [Api.undo, Commands.unregister, hfind, if_true]
  rfl

/-- Disposing of what is gone does nothing. -/
theorem dispose_of_disposed {d : Desk} (h : d.Sound) {n : Nat} {r : Record}
    (hr : d.records[n]? = some r) (hdisposed : r.disposed = true) :
    d.dispose n = (.disposed, d) := by
  have hsame : d.records.modify n (fun r => { r with disposed := true }) = d.records := by
    refine List.ext_getElem? fun m => ?_
    rw [List.getElem?_modify]
    by_cases hm : n = m
    · subst hm
      simp [hr, ← hdisposed]
    · simp [hm]
  have hundone : d.api.action? r.handle = none := by simp [Api.action?, h.disposed hr hdisposed]
  simp only [dispose, hr, hsame, Api.dispose_of_none hundone]

theorem dispose_of_none {d : Desk} {n : Nat} (hnone : d.records[n]? = none) :
    d.dispose n = (.disposed, d) := by
  simp only [dispose, hnone]

section Dropped

variable {d : Desk} {n m : Nat} {r s : Record}

theorem find?_dropped (name : String) : (d.dropped n r).api.commands.entries.find? name =
    if name = r.name then none else d.api.commands.entries.find? name :=
  Table.find?_erase ..

theorem records_dropped (hr : d.Lasts n r) (h : (d.dropped n r).records[m]? = some s) :
    m ≠ n ∧ d.records[m]? = some s ∨ m = n ∧ s = { r with disposed := true } := by
  by_cases hm : n = m
  · subst hm
    rw [dropped, List.getElem?_modify_eq, hr.1] at h
    exact .inr ⟨rfl, (Option.some.inj h).symm⟩
  · rw [dropped, List.getElem?_modify_ne _ _ hm] at h
    exact .inl ⟨Ne.symm hm, h⟩

theorem lasts_dropped (hr : d.Lasts n r) (h : (d.dropped n r).Lasts m s) :
    m ≠ n ∧ d.Lasts m s := by
  obtain ⟨hm, hs⟩ | ⟨rfl, rfl⟩ := records_dropped hr h.1
  · exact ⟨hm, hs, h.2⟩
  · cases h.2

theorem Lasts.dropped (h : d.Lasts m s) (hm : m ≠ n) : (d.dropped n r).Lasts m s :=
  ⟨(List.getElem?_modify_ne _ _ (Ne.symm hm)).trans h.1, h.2⟩

/-- The handle of another registration is another, and stays as it is. -/
theorem Sound.handles_dropped (h : d.Sound) (hr : d.Lasts n r) (hm : m ≠ n)
    (hs : d.records[m]? = some s) :
    (d.dropped n r).api.handles[s.handle]? = d.api.handles[s.handle]? :=
  List.getElem?_set_ne fun heq => hm (h.handles hs hr.1 heq.symm)

theorem Sound.dropped (h : d.Sound) (hr : d.Lasts n r) : (d.dropped n r).Sound where
  lasting hs := by
    obtain ⟨hm, hs⟩ := lasts_dropped hr hs
    obtain ⟨token, hhandle, hcommand⟩ := h.lasting hs
    have hne := fun heq => hm (h.single hs hr heq)
    exact ⟨token, (h.handles_dropped hr hm hs.1).trans hhandle,
      by rw [find?_dropped, if_neg hne, hcommand]⟩
  disposed hs hdisposed := by
    obtain ⟨hm, hs⟩ | ⟨rfl, rfl⟩ := records_dropped hr hs
    · exact (h.handles_dropped hr hm hs).trans (h.disposed hs hdisposed)
    · exact List.getElem?_set_self (h.handle_lt hr.1)
  holder hcommand := by
    rw [find?_dropped] at hcommand
    split at hcommand
    · cases hcommand
    next hne =>
      obtain ⟨m, s, hs, rfl⟩ := h.holder hcommand
      refine ⟨m, s, hs.dropped ?_, rfl⟩
      rintro rfl
      exact hne (Option.some.inj (hs.1.symm.trans hr.1) ▸ rfl)
  single hs ht := h.single (lasts_dropped hr hs).2 (lasts_dropped hr ht).2
  handles {m k s t} hs ht hhandle := by
    -- the record that changes keeps its handle
    have hkept {m : Nat} {s : Record} (hs : (d.dropped n r).records[m]? = some s) :
        ∃ s', d.records[m]? = some s' ∧ s'.handle = s.handle := by
      obtain ⟨-, hs⟩ | ⟨rfl, rfl⟩ := records_dropped hr hs
      · exact ⟨s, hs, rfl⟩
      · exact ⟨r, hr.1, rfl⟩
    obtain ⟨s', hs', hs⟩ := hkept hs
    obtain ⟨t', ht', ht⟩ := hkept ht
    exact h.handles hs' ht' (hs.trans (hhandle.trans ht.symm))

end Dropped

/-! ## Executing -/

/-- The handler of a name that is taken is run once, and what comes of it is passed on. -/
theorem execute_of_lasts {d : Desk} (h : d.Sound) {n : Nat} {r : Record} (hr : d.Lasts n r)
    (args : List Json) (work : Desk → Option (Outcome Json) × Desk) :
    d.execute r.name args work =
      let result := work { d with runs := d.runs ++ [(r.handler, args)] }
      (.executed (passedOn r.name result.1), result.2) := by
  obtain ⟨token, -, hfind⟩ := h.lasting hr
  rw [execute, execute_of_find? hfind]
  rfl

theorem execute_of_free {d : Desk} (h : d.Sound) {name : String} (hfree : d.Free name)
    (args : List Json) (work : Desk → Option (Outcome Json) × Desk) :
    d.execute name args work = (.executed (.returned .null), d) := by
  rw [execute, execute_of_find?_none (h.find?_eq_none_iff.mpr hfree)]
  rfl

/-! ## Whole runs -/

namespace Sound

variable {d : Desk}

theorem skipToken (h : d.Sound) : d.skipToken.Sound :=
  ⟨h.lasting, h.disposed, h.holder, h.single, h.handles⟩

theorem ran (h : d.Sound) (run : Callback × List Json) :
    ({ d with runs := d.runs ++ [run] } : Desk).Sound :=
  ⟨h.lasting, h.disposed, h.holder, h.single, h.handles⟩

theorem of_empty {api : Api} (hempty : api.commands.entries = []) :
    (⟨api, [], []⟩ : Desk).Sound where
  lasting h := by cases h.1
  disposed h := by cases h
  holder h := by
    rw [hempty] at h
    cases h
  single h := by cases h.1
  handles h := by cases h

/-- A name is free, or a registration of it lasts. -/
theorem free_or_lasts (d : Desk) (name : String) :
    d.Free name ∨ ∃ n r, d.Lasts n r ∧ r.name = name := by
  by_cases h : ∃ n r, d.Lasts n r ∧ r.name = name
  · exact .inr h
  · exact .inl fun n r hr hname => h ⟨n, r, hr, hname⟩

theorem register (h : d.Sound) (name extension : String) (handler : Callback) :
    (d.register name extension handler).2.Sound := by
  obtain hfree | ⟨n, r, hr, rfl⟩ := free_or_lasts d name
  · rw [register_of_free h hfree]
    exact h.taken hfree
  · rw [register_of_lasts h hr]
    exact h.skipToken

theorem dispose (h : d.Sound) (n : Nat) : (d.dispose n).2.Sound := by
  cases hr : d.records[n]? with
  | none => rwa [dispose_of_none hr]
  | some r =>
      cases hdisposed : r.disposed with
      | true => rwa [dispose_of_disposed h hr hdisposed]
      | false =>
          rw [dispose_of_lasts h ⟨hr, hdisposed⟩]
          exact h.dropped ⟨hr, hdisposed⟩

theorem execute (h : d.Sound) (name : String) (args : List Json)
    {work : Desk → Option (Outcome Json) × Desk} (hwork : ∀ d : Desk, d.Sound → (work d).2.Sound) :
    (d.execute name args work).2.Sound := by
  obtain hfree | ⟨n, r, hr, rfl⟩ := free_or_lasts d name
  · rwa [execute_of_free h hfree]
  · rw [execute_of_lasts h hr]
    exact hwork _ (h.ran (r.handler, args))

mutual

/-- Each call keeps a desk sound, with all that is called before it is done. -/
theorem perform : (call : Call) → {d : Desk} → d.Sound → (call.perform d).2.Sound
  | .register name extension handler, _, h => h.register name extension handler
  | .dispose n, _, h => h.dispose n
  | .execute name args during _, _, h => h.execute name args fun _ hd => performAll during hd

theorem performAll : (calls : List Call) → {d : Desk} → d.Sound → (Call.performAll calls d).Sound
  | [], _, h => h
  | call :: calls, _, h => performAll calls (perform call h)

end

end Sound

end Desk

/-! ## Commands are exclusive -/

/-- What holds of commands on a desk, and of the answer to each further call. -/
structure Desk.Exclusive (d : Desk) : Prop where
  registered : ∀ name,
    d.api.commands.entries.has name = true ↔ ∃ n r, d.Lasts n r ∧ r.name = name
  single : ∀ n m r s, d.Lasts n r → d.Lasts m s → r.name = s.name → n = m
  /-- A name that is taken is refused, and nothing changes but for a number that is skipped. -/
  refuses : ∀ n r, d.Lasts n r → ∀ extension handler,
    (Call.register r.name extension handler).perform d =
      (.refused (.general s!"Command '{r.name}' already registered by {r.extension}"), d.skipToken)
  accepts : ∀ name, d.Free name → ∀ extension handler,
    (Call.register name extension handler).perform d =
      (.registered d.records.length, d.taken name extension handler)
  /-- The first disposal removes the registration that it is for, and no other. -/
  disposes : ∀ n r, d.Lasts n r → ∀ name,
    ((Call.dispose n).perform d).2.api.commands.entries.find? name =
      if name = r.name then none else d.api.commands.entries.find? name
  /-- Every other disposal does nothing. -/
  stale : ∀ n, (∀ r, ¬ d.Lasts n r) → (Call.dispose n).perform d = (.disposed, d)
  /-- The handler of a registration that lasts is run once, with what is called meanwhile. -/
  executes : ∀ n r, d.Lasts n r → ∀ args during outcome,
    (Call.execute r.name args during outcome).perform d =
      (.executed (passedOn r.name outcome),
        Call.performAll during { d with runs := d.runs ++ [(r.handler, args)] })
  ignores : ∀ name, d.Free name → ∀ args during outcome,
    (Call.execute name args during outcome).perform d = (.executed (.returned .null), d)

theorem Desk.Sound.exclusive {d : Desk} (h : d.Sound) : d.Exclusive where
  registered _ := h.has_iff
  single _ _ _ _ := h.single
  refuses _ _ hr extension handler := register_of_lasts h hr extension handler
  accepts _ hfree extension handler := register_of_free h hfree extension handler
  disposes n r hr name := by
    rw [Call.perform, dispose_of_lasts h hr]
    exact find?_dropped name
  stale n hnone := by
    rw [Call.perform]
    cases hr : d.records[n]? with
    | none => exact dispose_of_none hr
    | some r => exact dispose_of_disposed h hr (by simpa [Lasts, hr] using hnone r)
  executes n r hr args during outcome := by
    rw [Call.perform, execute_of_lasts h hr]
  ignores name hfree args during outcome := by
    rw [Call.perform, execute_of_free h hfree]

/-- Whatever is called, and whatever handlers call before they are done, commands stay exclusive. -/
theorem exclusive_performAll {api : Api} (hempty : api.commands.entries = []) (calls : List Call) :
    (Call.performAll calls ⟨api, [], []⟩).Exclusive :=
  (Desk.Sound.performAll calls (.of_empty hempty)).exclusive

/-- A name that is used again, with a handle of its first owner that is undone twice, and a handler
that undoes its own registration. -/
theorem exclusive_performAll_reused :
    ({} : Api).commands.entries = [] ∧
    let d := Call.performAll [.register "x" "a.one" 1, .dispose 0, .register "x" "b.two" 2,
      .dispose 0] ⟨{}, [], []⟩
    d.Lasts 1 ⟨"x", "b.two", 2, 1, false⟩ ∧
      (Call.execute "x" [] [.dispose 1] (some (.returned (.text "two")))).perform d =
        (.executed (.returned (.text "two")),
          Call.performAll [.dispose 1] { d with runs := [(2, [])] }) := by
  have hlasts : (Call.performAll [.register "x" "a.one" 1, .dispose 0, .register "x" "b.two" 2,
      .dispose 0] ⟨{}, [], []⟩).Lasts 1 ⟨"x", "b.two", 2, 1, false⟩ := ⟨rfl, rfl⟩
  exact ⟨rfl, hlasts, (exclusive_performAll rfl _).executes 1 _ hlasts [] _ _⟩

/-- A handler that panics before its work starts takes the call with it: that is no failure. -/
theorem panics_early :
    let answer := ((Call.execute "boom" [] [] none).perform
      (Call.performAll [.register "boom" "h" 0] ⟨{}, [], []⟩)).1
    answer = .executed .panicked ∧ ∀ failure, answer ≠ .executed (.failed failure) :=
  ⟨rfl, nofun⟩

end Commands

end EditorHost
