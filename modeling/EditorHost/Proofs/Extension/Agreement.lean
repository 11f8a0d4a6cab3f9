import EditorHost.Proofs.Extension.Persisting
import EditorHost.Proofs.Extension.Restart

/-!
# When memory and file agree on what is disabled

A host has a set of disabled extensions in memory and another one in a file, from which the next
host on the same disk starts.  Calls put extensions into the set and take them out, and any of them
may find that the file cannot be written.  A call that fails has changed the set in memory all the
same, and the next call that asks for the same succeeds, since it finds nothing to change, and
leaves the file as it was.

## Contents

* `DisablingCall` is a call that reaches the set, `DisablingCall.Asks` what it asks of it, and
  `Disablings` a history of such calls with anything between them that leaves both sets alone.
* `Disablings.follow`: both sets behind a history are those that the requests make of the sets
  before it.
* `World.setDisabled_agrees`: what a further call does, and when the sets agree behind it.
* `World.setDisabled_retried` is the failure and the call after it.
-/

namespace EditorHost

variable {χ : Type} {code : Code χ} {w w' w₁ : World χ} {place : List String} {id : String}

/-! ## Hosts that are started -/

theorem Host.pairwise_readDisabled (disk : Disk) (file : Path) :
    (readDisabled disk file).Pairwise (· < ·) := by
  have hrun : ∀ ids before : List String, before.Pairwise (· < ·) →
      (ids.foldl (fun set text => Selector.insertSorted text set) before).Pairwise (· < ·) := by
    intro ids
    induction ids with
    | nil => exact fun _ h => h
    | cons text ids ih => exact fun before h => ih _ (Selector.pairwise_insertSorted h)
  rw [readDisabled]
  split
  · exact hrun _ [] .nil
  · exact .nil

/-- A host that is started has the sets it needs, wherever it is started. -/
theorem World.keepsDisabled_started {l : Layout} (hstart : w.host = .ofDisk w.disk l)
    (hfile : l.disabledFile.Plain place) (hslash : l.disabledFile.endsInSlash = false)
    (hstraight : w.disk.Straight place) : w.KeepsDisabled place where
  file := hstart ▸ hfile
  slash := hstart ▸ hslash
  straight := hstraight
  sorted := hstart ▸ Host.pairwise_readDisabled _ _

/-! ## Requests -/

namespace DisabledSets

variable {s : DisabledSets} {q : DisabledRequest}

/-- The next host starts with what this one has in memory. -/
def Agree (s : DisabledSets) : Prop := s.stored = s.memory

theorem Agree.after (h : s.Agree) (hsaved : q.saved = true) : (s.after q).Agree := by
  rw [DisabledSets.after]
  split
  · exact h
  · simp only [Agree]

theorem Agree.foldl {requests : List DisabledRequest} (h : s.Agree)
    (hsaved : ∀ q ∈ requests, q.saved = true) : (requests.foldl DisabledSets.after s).Agree := by
  induction requests generalizing s with
  | nil => exact h
  | cons q requests ih =>
      obtain ⟨hq, hsaved⟩ := List.forall_mem_cons.mp hsaved
      exact ih (h.after hq) hsaved

end DisabledSets

theorem World.agree_started {l : Layout} (hstart : w.host = .ofDisk w.disk l) :
    w.disabledSets.Agree := by
  rw [DisabledSets.Agree, disabledSets, hstart]
  rfl

theorem Host.contains_marked (disabled : List String) (id : String) (isDisabled : Bool) :
    (marked disabled id isDisabled).contains id = isDisabled := by
  cases isDisabled with
  | true => exact List.contains_iff_mem.mpr (Selector.mem_insertSorted.mpr (.inl rfl))
  | false =>
      refine Bool.eq_false_iff.mpr fun h => ?_
      simpa [marked] using (List.mem_filter.mp (List.contains_iff_mem.mp h)).2

/-- A set that is as it is asked to be is not changed. -/
theorem Host.marked_of_same {disabled : List String} (hsorted : disabled.Pairwise (· < ·))
    {isDisabled : Bool} (h : disabled.contains id = isDisabled) :
    marked disabled id isDisabled = disabled := by
  cases isDisabled with
  | true => exact Selector.insertSorted_of_mem hsorted (List.contains_iff_mem.mp h)
  | false =>
      refine List.filter_eq_self.mpr fun other hother => bne_iff_ne.mpr fun heq => ?_
      subst heq
      exact Bool.false_ne_true (h.symm.trans (List.contains_iff_mem.mpr hother))

/-! ## Calls -/

/-- A call that reaches the set of disabled extensions. -/
inductive DisablingCall where
  | set (id : String) (disabled : Bool)
  | disable (id : String)
  | enable (id : String)
  | uninstall (id : String)

namespace DisablingCall

/-- What a call does. -/
def flow (code : Code χ) : DisablingCall → Flow (World χ) (Except Fault Unit)
  | .set id disabled => World.setDisabled id disabled
  | .disable id => World.disable code id
  | .enable id => do
      let active ← World.enable code id
      return active.map fun _ => ()
  | .uninstall id => World.uninstall code id

/-- What a call asks of the set if it succeeds, and if it fails.  A call may be refused before it
asks for anything, and an extension that cannot be deleted has been taken out of the set before. -/
inductive Asks : DisablingCall → Bool → List DisabledRequest → Prop
  | set {id : String} {disabled ok : Bool} : Asks (.set id disabled) ok [⟨id, disabled, ok⟩]
  | disable {id : String} {ok : Bool} : Asks (.disable id) ok [⟨id, true, ok⟩]
  | enable {id : String} {ok : Bool} : Asks (.enable id) ok [⟨id, false, ok⟩]
  | uninstall {id : String} {ok saved : Bool} (h : ok = true → saved = true) :
      Asks (.uninstall id) ok [⟨id, false, saved⟩]
  | notDisabled {id : String} : Asks (.disable id) false []
  | notUninstalled {id : String} : Asks (.uninstall id) false []

/-- The package that a call deletes lies aside of the file. -/
def Aside (place : List String) (w : World χ) (c : DisablingCall) : Prop :=
  ∀ id, c = .uninstall id → ∀ e, w.host.find? id = some e → World.PackageAside place e.path w

/-- A call comes to what it asks of the sets, and to nothing else. -/
theorem disabledSets {c : DisablingCall} (hcode : code.LeavesDisabled place)
    (hkeeps : w.KeepsDisabled place) (haside : c.Aside place w) {result : Except Fault Unit}
    (h : (c.flow code).alone w = some (result, w')) :
    ∃ requests, c.Asks result.isOk requests ∧ w'.KeepsDisabled place ∧
      w'.disabledSets = requests.foldl DisabledSets.after w.disabledSets := by
  -- What is left alone on both sides of the one request does not show.
  have haround {w₁ w₂ : World χ} {id : String} {disabled : Bool} {saved : Except Fault Unit}
      (hbefore : World.LeavesDisabled place w w₁)
      (hset : (World.setDisabled id disabled).alone w₁ = some (saved, w₂))
      (hafter : World.LeavesDisabled place w₂ w') : w'.KeepsDisabled place ∧
        w'.disabledSets = [⟨id, disabled, saved.isOk⟩].foldl DisabledSets.after w.disabledSets := by
    obtain ⟨-, hkeeps', hsets, -⟩ :=
      World.setDisabled_disabledSets (hbefore.keeps hkeeps) hset
    refine ⟨hafter.keeps hkeeps', ?_⟩
    rw [hafter.disabledSets hkeeps', hsets, hbefore.disabledSets hkeeps]
    rfl
  cases c with
  | set id disabled => exact ⟨_, .set, haround (.refl w) h (.refl w')⟩
  | disable id =>
      rcases World.disable_disabled hcode h with ⟨hfailed, rfl⟩ | ⟨w₁, hleaves, hset⟩
      · exact ⟨[], hfailed ▸ .notDisabled, hkeeps, rfl⟩
      · exact ⟨_, .disable, haround hleaves hset (.refl w')⟩
  | enable id =>
      obtain ⟨active, w₃, henable, h⟩ := Flow.alone_bind_eq_some h
      obtain ⟨rfl, rfl⟩ := Prod.mk.inj (Option.some.inj h)
      obtain ⟨enabled, w₁, hset, hok, hleaves⟩ := World.enable_disabled hcode henable
      have hmap : (active.map fun _ => ()).isOk = enabled.isOk := by
        rw [hok]
        cases active <;> rfl
      exact ⟨_, hmap ▸ .enable, haround (.refl w) hset hleaves⟩
  | uninstall id =>
      rcases World.uninstall_disabled hcode hkeeps (haside id rfl) h with
        ⟨hfailed, rfl⟩ | ⟨w₁, enabled, w₂, hbefore, hset, hok, hafter⟩
      · exact ⟨[], hfailed ▸ .notUninstalled, hkeeps, rfl⟩
      · exact ⟨_, .uninstall hok, haround hbefore hset hafter⟩

end DisablingCall

/-! ## Histories -/

/-- A history of calls one after another, each with whether it succeeded.  Between them happens what
leaves both sets alone. -/
inductive Disablings (code : Code χ) (place : List String) (w : World χ) :
    List (DisablingCall × Bool) → World χ → Prop
  | refl : Disablings code place w [] w
  | between {w₁ w₂ : World χ} {calls : List (DisablingCall × Bool)}
      (h : Disablings code place w calls w₁) (hleaves : World.LeavesDisabled place w₁ w₂) :
      Disablings code place w calls w₂
  | call {w₁ w₂ : World χ} {calls : List (DisablingCall × Bool)} {c : DisablingCall}
      {result : Except Fault Unit} (h : Disablings code place w calls w₁)
      (haside : c.Aside place w₁) (hrun : (c.flow code).alone w₁ = some (result, w₂)) :
      Disablings code place w (calls ++ [(c, result.isOk)]) w₂

/-- Both sets behind a history come from its requests, one after another. -/
theorem Disablings.follow {calls : List (DisablingCall × Bool)}
    (h : Disablings code place w calls w') (hcode : code.LeavesDisabled place)
    (hkeeps : w.KeepsDisabled place) :
    w'.KeepsDisabled place ∧ ∃ requests : List (List DisabledRequest),
      List.Forall₂ (fun call asked => call.1.Asks call.2 asked) calls requests ∧
        w'.disabledSets = requests.flatten.foldl DisabledSets.after w.disabledSets := by
  induction h with
  | refl => exact ⟨hkeeps, [], .nil, rfl⟩
  | between _ hleaves ih =>
      obtain ⟨hkeeps', requests, hasked, hsets⟩ := ih
      exact ⟨hleaves.keeps hkeeps', requests, hasked, (hleaves.disabledSets hkeeps').trans hsets⟩
  | call _ haside hrun ih =>
      obtain ⟨hkeeps', requests, hasked, hsets⟩ := ih
      obtain ⟨asked, hasks, hkeeps'', hsets'⟩ :=
        DisablingCall.disabledSets hcode hkeeps' haside hrun
      refine ⟨hkeeps'', requests ++ [asked], List.rel_append hasked (.cons hasks .nil), ?_⟩
      rw [hsets', hsets, List.flatten_append, List.foldl_append, List.flatten_singleton]

/-! ## A further call -/

namespace World

theorem bind_returns {α β : Type} {flow : Flow (World χ) α} {k : α → Flow (World χ) β}
    (h : ∃ result, flow.alone w = some result)
    (hk : ∀ value w, ∃ result w', (k value).alone w = some (result, w')) :
    ∃ result w', (flow.bind k).alone w = some (result, w') := by
  obtain ⟨⟨value, w₁⟩, hflow⟩ := h
  obtain ⟨result, w', hrest⟩ := hk value w₁
  exact ⟨result, w', by rw [Flow.alone_bind, hflow, Option.bind_some, hrest]⟩

theorem save_returns (w : World χ) (file : Path) (content : String) :
    ∃ result, (save file content).alone w = some result := by
  simp only [save, Flow.bind_eq, Flow.alone_pause_bind]
  rw [Flow.alone_bind, onDisk_alone, Option.bind_some]
  split
  · exact ⟨_, rfl⟩
  · exact ⟨_, (Flow.alone_pause_bind _ _).trans (onDisk_alone _ _)⟩

/-- A call always comes back. -/
theorem setDisabled_returns (w : World χ) (id : String) (disabled : Bool) :
    ∃ result w', (setDisabled id disabled).alone w = some (result, w') := by
  simp only [setDisabled, Flow.bind_eq, Flow.alone_pause_bind, Flow.alone_sync_bind]
  split
  · exact ⟨_, _, rfl⟩
  · refine bind_returns (save_returns _ _ _) fun saved w₁ => ?_
    cases saved <;> exact ⟨_, _, rfl⟩

/-- What a call does behind any history of calls in which files may or may not have been written.
Both sets come from the requests of the history, so they agree if they did and every file was
written.  The set in memory then becomes what the call asks for, whether it succeeds or fails.  If
it succeeds, the sets agree exactly if it had something to change or they agreed before.  If it
fails, the set in memory has changed and the file has not. -/
theorem setDisabled_agrees {calls : List (DisablingCall × Bool)} (hcode : code.LeavesDisabled place)
    (hkeeps : w.KeepsDisabled place) (hcalls : Disablings code place w calls w₁) (id : String)
    (disabled : Bool) :
    (∃ requests : List (List DisabledRequest),
      List.Forall₂ (fun call asked => call.1.Asks call.2 asked) calls requests ∧
        w₁.disabledSets = requests.flatten.foldl DisabledSets.after w.disabledSets ∧
        ((∀ q ∈ requests.flatten, q.saved = true) → w.disabledSets.Agree →
          w₁.disabledSets.Agree)) ∧
      ∃ result w₂, (setDisabled id disabled).alone w₁ = some (result, w₂) ∧
        w₂.host.disabled = Host.marked w₁.host.disabled id disabled ∧
        (result = .ok () → (w₂.disabledSets.Agree ↔
          w₁.host.isDisabled id ≠ disabled ∨ w₁.disabledSets.Agree)) ∧
        ∀ fault, result = .error fault → w₂.host.disabled ≠ w₁.host.disabled ∧
          w₂.disabledSets.stored = w₁.disabledSets.stored := by
  obtain ⟨hkeeps₁, requests, hasked, hsets⟩ := hcalls.follow hcode hkeeps
  refine ⟨⟨requests, hasked, hsets, fun hsaved hagree => hsets ▸ hagree.foldl hsaved⟩, ?_⟩
  obtain ⟨result, w₂, hset⟩ := setDisabled_returns w₁ id disabled
  obtain ⟨-, -, hafter, hsame⟩ := setDisabled_disabledSets hkeeps₁ hset
  refine ⟨result, w₂, hset, ?_⟩
  by_cases hmember : w₁.host.isDisabled id = disabled
  · obtain ⟨rfl, rfl⟩ := hsame hmember
    refine ⟨(Host.marked_of_same hkeeps₁.sorted hmember).symm, fun _ => ?_, nofun⟩
    exact ⟨.inr, fun h => h.resolve_left (absurd hmember)⟩
  · have hsets' : w₂.disabledSets =
        { memory := Host.marked w₁.host.disabled id disabled,
          stored := if result.isOk then Host.marked w₁.host.disabled id disabled
            else w₁.disabledSets.stored } := hafter.trans (if_neg hmember)
    have hmemory : w₂.host.disabled = Host.marked w₁.host.disabled id disabled :=
      congrArg DisabledSets.memory hsets'
    refine ⟨hmemory, ?_, ?_⟩
    · rintro rfl
      refine iff_of_true ?_ (.inl hmember)
      rw [hsets']
      rfl
    · rintro fault rfl
      constructor
      · intro heq
        refine hmember ?_
        rw [Host.isDisabled, ← heq, hmemory, Host.contains_marked]
      · rw [hsets']
        rfl

/-- A folder stands where the file is to be written. -/
def stuckDisk : Disk where
  root := .folder [("data", .folder [("disabled-extensions.json", .folder [])])]

theorem keepsDisabled_stuckDisk :
    (startedWorld stuckDisk).KeepsDisabled ["data", "disabled-extensions.json"] := by
  refine keepsDisabled_started (l := dataLayout) rfl stands_dataLayout.file (by decide) ?_
  have hlinkless : stuckDisk.root.Linkless := by simp [stuckDisk, Node.linkless_folder_iff]
  exact fun other _ target => hlinkless.faceAt_ne_link other target

/-- A call that has failed is made again, and then the sets do not agree if it succeeds. -/
theorem setDisabled_agrees_stuck : ∃ w₁ : World Unit,
    Disablings Code.idle ["data", "disabled-extensions.json"] (startedWorld stuckDisk)
      [(.set "p.a" true, false)] w₁ ∧
    ∃ result w₂, (setDisabled "p.a" true).alone w₁ = some (result, w₂) ∧
      w₂.host.disabled = ["p.a"] ∧ (result = .ok () → ¬ w₂.disabledSets.Agree) := by
  have hrun : ((setDisabled "p.a" true).alone (startedWorld stuckDisk)).map
      (fun r => (r.1.isOk, r.2.disabledSets)) = some (false, ⟨["p.a"], []⟩) := by
    decide +kernel
  obtain ⟨⟨first, w₁⟩, hfirst, heq⟩ := Option.map_eq_some_iff.mp hrun
  obtain ⟨hfailed, hsets⟩ := Prod.mk.inj heq
  have hmemory : w₁.host.disabled = ["p.a"] := congrArg DisabledSets.memory hsets
  have hcalls : Disablings Code.idle ["data", "disabled-extensions.json"] (startedWorld stuckDisk)
      [(.set "p.a" true, false)] w₁ :=
    hfailed ▸ .call .refl nofun hfirst
  obtain ⟨-, result, w₂, hsecond, hmarked, hagree, -⟩ := setDisabled_agrees
    Code.leavesDisabled_idle keepsDisabled_stuckDisk hcalls "p.a" true
  refine ⟨w₁, hcalls, result, w₂, hsecond, ?_, fun hok h => ?_⟩
  · rw [hmarked, hmemory]
    decide
  rcases (hagree hok).mp h with hchanged | hagreed
  · exact hchanged (by rw [Host.isDisabled, hmemory]; decide)
  · rw [hsets] at hagreed
    cases hagreed

/-- The sets of a host behind each of some calls that ask for the same, and whether each call
succeeded. -/
def retriedSets (w : World χ) (id : String) : Nat → Option (List (Bool × DisabledSets))
  | 0 => some []
  | n + 1 => do
      let (result, w') ← (setDisabled id true).alone w
      return (result.isOk, w'.disabledSets) :: (← retriedSets w' id n)

/-- The failed call changes the set in memory, and the call after it succeeds although the file has
not been written. -/
theorem setDisabled_retried : (startedWorld stuckDisk).disabledSets = ⟨[], []⟩ ∧
    retriedSets (startedWorld stuckDisk) "p.a" 2 =
      some [(false, ⟨["p.a"], []⟩), (true, ⟨["p.a"], []⟩)] := by
  decide +kernel

end World

end EditorHost
