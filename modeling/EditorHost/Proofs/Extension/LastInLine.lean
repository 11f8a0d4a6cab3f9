import EditorHost.Proofs.Extension.Conduct
import EditorHost.Proofs.Purpose

/-!
# The last one in line decides

Who is in line for an extension gets its turn in the order in which tickets were taken, and leaves
the extension as it wants it.  So when all calls are over the extension is as the call wants it that
got in line last, whatever else happened.  Which call that is can be seen from outside: it is the
one behind whose turn there is a new ticket in the line.
-/

namespace EditorHost

open Interleaving (Move Pool System Task)

variable {χ : Type}

/-- What the call wants that got in line last; before anybody does, things are as they are. -/
def HostCall.decision (before : Bool) (last : Option HostCall) : Bool :=
  last.elim before HostCall.activates

theorem HostCall.decision_of_any {last : Option HostCall} (h : last.any activates = true)
    (before : Bool) : decision before last = true := by
  cases last with
  | some call => exact h
  | none => cases h

theorem HostCall.any_of_decision {before : Bool} {last : Option HostCall}
    (h : decision before last = true) (hnone : before = true → last ≠ none) :
    last.any activates = true := by
  cases last with
  | some call => exact h
  | none => exact absurd rfl (hnone h)

namespace Subject

open HostCall (decision)

/-- The last ticket in line is held by the call that got in line last, and when nobody is in line
the extension is as that call wants it.  Before anybody gets in line it is as it was. -/
structure Decided (L : Subject χ) (before : Bool) (last : Option HostCall) (w : World χ)
    (l : List (HostCall × Place)) : Prop where
  holder : ∀ t c k, (L.line w).getLast? = some t → (c, k) ∈ l → k.ticket? = some t → last = some c
  active : L.line w = [] → L.isActive w = true → decision before last = true
  inactive : L.line w = [] → L.IsReliable → decision before last = true → L.isActive w = true
  untouched : last = none → L.line w = [] ∧ L.isActive w = before

variable {L : Subject χ} {w w' : World χ} {l l' : List (HostCall × Place)} {c : HostCall}
  {k k' : Place} {n : Nat} {before : Bool} {last : Option HostCall}

/-! ## One call goes on -/

theorem decided_nil (hactive : L.isActive w = before) (hline : L.line w = []) :
    L.Decided before none w [] :=
  ⟨fun _ _ _ h => by simp [hline] at h, fun _ h => hactive ▸ h, fun _ _ h => hactive.trans h,
    fun _ => ⟨hline, hactive⟩⟩

/-- Nobody moves in the line. -/
theorem Decided.keep (h : L.Decided before last w l) (hline : L.line w' = L.line w)
    (hactive : L.line w = [] → L.isActive w' = L.isActive w)
    (hholders : ∀ c k, (c, k) ∈ l' →
      k.ticket? = none ∨ ∃ k₀, (c, k₀) ∈ l ∧ k.ticket? = k₀.ticket?) :
    L.Decided before last w' l' := by
  refine ⟨fun t c k hlast hmem ht => ?_, fun hnil ha => ?_, fun hnil hr hd => ?_, fun hnone => ?_⟩
  · rcases hholders c k hmem with hnone | ⟨k₀, hmem, hsame⟩
    · cases hnone.symm.trans ht
    · exact h.holder t c k₀ (hline ▸ hlast) hmem (hsame ▸ ht)
  · rw [hline] at hnil
    exact h.active hnil (hactive hnil ▸ ha)
  · rw [hline] at hnil
    exact (hactive hnil).trans (h.inactive hnil hr hd)
  · obtain ⟨hnil, hbefore⟩ := h.untouched hnone
    exact ⟨hline.trans hnil, (hactive hnil).trans hbefore⟩

theorem mem_set_ticket {c' : HostCall} {k'' : Place} (hn : l[n]? = some (c, k))
    (hticket : k'.ticket? = none ∨ k'.ticket? = k.ticket?) (hmem : (c', k'') ∈ l.set n (c, k')) :
    k''.ticket? = none ∨ ∃ k₀, (c', k₀) ∈ l ∧ k''.ticket? = k₀.ticket? := by
  rcases List.mem_or_eq_of_mem_set hmem with hmem | heq
  · exact .inr ⟨k'', hmem, rfl⟩
  · obtain ⟨rfl, rfl⟩ := Prod.mk.inj heq
    exact hticket.imp_right fun h => ⟨k, List.mem_of_getElem? hn, h⟩

/-- One call goes on without moving in the line. -/
theorem Decided.stay (h : L.Decided before last w l) (hn : l[n]? = some (c, k))
    (hline : L.line w' = L.line w) (hactive : L.line w = [] → L.isActive w' = L.isActive w)
    (hticket : k'.ticket? = k.ticket?) : L.Decided before last w' (l.set n (c, k')) :=
  h.keep hline hactive fun _ _ hmem => mem_set_ticket hn (.inr hticket) hmem

theorem Decided.join (hsound : L.Sound w l) (hs : L.Joins w w') :
    L.Decided before (some c) w' (l.set n (c, .waiting w.host.tickets)) := by
  refine ⟨fun t c' k' hlast hmem ht => ?_, fun hnil => ?_, fun hnil => ?_, nofun⟩
  · rw [hs.line, List.getLast?_concat, Option.some.injEq] at hlast
    subst hlast
    rcases List.mem_or_eq_of_mem_set hmem with hmem | heq
    · -- Nobody has had a ticket of that number.
      obtain ⟨m, hm⟩ := List.mem_iff_getElem?.mp hmem
      have hold := hsound.issued _ ((hsound.inLine _).mpr ⟨m, c', k', hm, ht⟩)
      exact absurd hold (Nat.lt_irrefl _)
    · exact congrArg some (Prod.mk.inj heq).1.symm
  · simp [hs.line] at hnil
  · simp [hs.line] at hnil

theorem Decided.quit (hsound : L.Sound w l) (h : L.Decided before last w l)
    (hn : l[n]? = some (c, k)) {t : Nat} (hk : k = .served t ∨ k = .failed t)
    (hs : L.Quits t w w') : L.Decided before last w' (l.set n (c, .gone)) := by
  have hknows := hsound.knows hn
  have hactive := isActive_congr hs.record
  have hticket : k.ticket? = some t := by rcases hk with rfl | rfl <;> rfl
  have hturn : k.isInTurn = true := by rcases hk with rfl | rfl <;> rfl
  obtain ⟨rest, hline⟩ : ∃ rest, L.line w = t :: rest :=
    List.head?_eq_some_iff.mp ((hknows.first hturn).trans hticket)
  have hrest : L.line w' = rest := by rw [hs.line, hline, List.erase_cons_head]
  -- If nobody is behind the call, it is the one that got in line last.
  have hlast (hnil : L.line w' = []) : decision before last = c.activates := by
    obtain rfl : last = some c := by
      refine h.holder t c k ?_ (List.mem_of_getElem? hn) hticket
      rw [hline, ← hrest, hnil, List.getLast?_singleton]
    rfl
  refine ⟨fun t' c' k' hlast' hmem ht' => ?_, fun hnil ha => ?_, fun hnil hr hd => ?_,
    fun hnone => ?_⟩
  · rcases mem_set_ticket hn (.inl rfl) hmem with hnone | ⟨k₀, hmem, hsame⟩
    · cases hnone.symm.trans ht'
    · refine h.holder t' c' k₀ ?_ hmem (hsame ▸ ht')
      rw [hrest] at hlast'
      rw [hline, List.getLast?_cons, hlast', Option.getD_some]
  · rw [hlast hnil]
    rcases hk with rfl | rfl
    · exact hknows.holds.1.symm.trans (hactive.symm.trans ha)
    · exact hknows.holds.2.1
  · rw [hlast hnil] at hd
    rcases hk with rfl | rfl
    · exact hactive.trans (hknows.holds.1.trans hd)
    · exact absurd hr hknows.holds.2.2.1
  · -- The call has a ticket, so somebody got in line.
    have hnil := (h.untouched hnone).1
    rw [hline] at hnil
    cases hnil

theorem Decided.may (hsound : L.Sound w l) (h : L.Decided before last w l)
    (hn : l[n]? = some (c, k)) (hmay : L.May c k w k' w') :
    L.Decided before (if k'.isWaiting then some c else last) w' (l.set n (c, k')) := by
  -- Whoever has a turn is in line.
  have hfirst (hk : k.isInTurn = true) (hnil : L.line w = []) : L.isActive w' = L.isActive w := by
    obtain ⟨t, ht⟩ := Place.ticket?_of_isInTurn hk
    have hhead := ((hsound.knows hn).first hk).trans ht
    simp [hnil] at hhead
  cases hmay with
  | bystand hk hs =>
      simp only [hk]
      exact h.stay hn hs.line (fun _ => isActive_congr hs.record) rfl
  | join hs => exact .join hsound hs
  | work hs _ => exact h.stay hn hs.line (fun _ => isActive_congr hs.record) rfl
  | activated _ hs _ _ => exact h.stay hn hs.line (hfirst rfl) rfl
  | deactivated _ hs _ _ => exact h.stay hn hs.line (hfirst rfl) rfl
  | released _ hs _ => exact h.stay hn hs.line (fun _ => isActive_congr hs.record) rfl
  | quit hk hs => exact .quit hsound h hn hk hs

theorem Wakes.ticket?_eq (h : L.Wakes c k w k') : k'.ticket? = k.ticket? := by
  cases h <;> rfl

theorem Decided.starts (h : L.Decided before last w l) (calls : List HostCall) :
    L.Decided before last w (l ++ calls.map fun c => (c, .away)) := by
  refine h.keep rfl (fun _ => rfl) fun c k hmem => ?_
  rcases List.mem_append.mp hmem with hmem | hmem
  · exact .inr ⟨k, hmem, rfl⟩
  · obtain ⟨c', -, heq⟩ := List.mem_map.mp hmem
    obtain ⟨rfl, rfl⟩ := Prod.mk.inj heq
    exact .inl rfl

/-! ## A turn -/

/-- Who waits in line does nothing. -/
theorem goes_of_isWaiting (hk : k.isWaiting = true) (h : L.protocol.Goes c k w k' w') :
    k' = k ∧ w' = w := by
  cases h with
  | rest => exact ⟨rfl, rfl⟩
  | on hmay _ =>
      obtain ⟨t, rfl⟩ : ∃ t, k = .waiting t := by
        cases k <;> first | exact ⟨_, rfl⟩ | cases hk
      have hmay : L.May c (.waiting t) w _ _ := hmay
      cases hmay with
      | bystand hk' => cases hk'
      | quit hk' => simp at hk'

/-- What can be seen of a turn in the line: a new ticket, or none. -/
theorem May.line (hmay : L.May c k w k' w') : w.host.tickets ≤ w'.host.tickets ∧
    if k'.isWaiting then w.host.tickets ∈ L.line w' else ∀ t ∈ L.line w', t ∈ L.line w := by
  cases hmay with
  | bystand hk hs =>
      rw [hk, hs.line]
      exact ⟨hs.tickets, fun _ ht => ht⟩
  | join hs => exact ⟨hs.tickets, by simp [Place.isWaiting, hs.line]⟩
  | work hs _ => exact ⟨hs.tickets, hs.line ▸ fun _ ht => ht⟩
  | activated _ hs _ _ => exact ⟨hs.tickets, hs.line ▸ fun _ ht => ht⟩
  | deactivated _ hs _ _ => exact ⟨hs.tickets, hs.line ▸ fun _ ht => ht⟩
  | released _ hs _ => exact ⟨hs.tickets, hs.line ▸ fun _ ht => ht⟩
  | quit _ hs => exact ⟨hs.tickets, fun t ht => List.mem_of_mem_erase (hs.line ▸ ht)⟩

theorem goes_line (hk : k.isWaiting = false) (h : L.protocol.Goes c k w k' w') :
    if k'.isWaiting then ∃ t ∈ L.line w', w.host.tickets ≤ t
    else ∀ t ∈ L.line w', t ∈ L.line w := by
  induction h with
  | rest k w =>
      rw [hk]
      exact fun _ ht => ht
  | @on k k₁ k' w w₁ w' hmay hgoes ih =>
      obtain ⟨htickets, hline⟩ := May.line hmay
      cases hk₁ : k₁.isWaiting with
      | true =>
          obtain ⟨rfl, rfl⟩ := goes_of_isWaiting hk₁ hgoes
          rw [hk₁] at hline ⊢
          exact ⟨_, hline, Nat.le_refl _⟩
      | false =>
          have hnext := ih hk₁
          rw [hk₁] at hline
          split
          next hk' =>
            rw [hk'] at hnext
            obtain ⟨t, ht, hle⟩ := hnext
            exact ⟨t, ht, Nat.le_trans htickets hle⟩
          next hk' =>
            rw [Bool.not_eq_true] at hk'
            rw [hk'] at hnext
            exact fun t ht => hline t (hnext t ht)

theorem Decided.goes (hsound : L.Sound w l) (h : L.Decided before last w l)
    (hn : l[n]? = some (c, k)) (hk : k.isWaiting = false) (hgoes : L.protocol.Goes c k w k' w') :
    L.Decided before (if k'.isWaiting then some c else last) w' (l.set n (c, k')) := by
  induction hgoes generalizing l with
  | rest k w =>
      rw [hk]
      exact h.stay hn rfl (fun _ => rfl) rfl
  | @on k k₁ k' w w₁ w' hmay hgoes ih =>
      have hlt : n < l.length := (List.getElem?_eq_some_iff.mp hn).1
      have hone := h.may hsound hn hmay
      cases hk₁ : k₁.isWaiting with
      | true =>
          obtain ⟨rfl, rfl⟩ := goes_of_isWaiting hk₁ hgoes
          exact hone
      | false =>
          rw [hk₁] at hone
          have hnext := ih (hsound.may hn hmay) hone (List.getElem?_set_self hlt) hk₁
          rwa [List.set_set] at hnext

/-- Whether there is a new ticket in the line. -/
def hasNewTicket (L : Subject χ) (w w' : World χ) : Bool :=
  (L.line w').any fun ticket => !(L.line w).contains ticket

theorem hasNewTicket_eq_false (h : ∀ t ∈ L.line w', t ∈ L.line w) :
    L.hasNewTicket w w' = false := by
  simpa [hasNewTicket] using h

/-- Whoever gets in line by its turn decides from now on. -/
theorem Decided.turn (hsound : L.Sound w l) (h : L.Decided before last w l)
    (hexpected : L.IsReliable → w.CanMake L.id) (hn : l[n]? = some (c, k)) {k₁ : Place}
    (hwakes : k₁ = k ∨ L.Wakes c k w k₁) (hgoes : L.protocol.Goes c k₁ w k' w') :
    L.Decided before (if L.hasNewTicket w w' then some c else last) w' (l.set n (c, k')) := by
  have hlt : n < l.length := (List.getElem?_eq_some_iff.mp hn).1
  have hticket : k₁.ticket? = k.ticket? := by
    rcases hwakes with rfl | hwakes
    · rfl
    · exact hwakes.ticket?_eq
  have hwoken : L.Decided before last w (l.set n (c, k₁)) := h.stay hn rfl (fun _ => rfl) hticket
  have hself : (l.set n (c, k₁))[n]? = some (c, k₁) := List.getElem?_set_self hlt
  cases hk₁ : k₁.isWaiting with
  | true =>
      obtain ⟨rfl, rfl⟩ := goes_of_isWaiting hk₁ hgoes
      rw [hasNewTicket_eq_false fun _ ht => ht]
      exact hwoken
  | false =>
      have hsound₁ : L.Sound w (l.set n (c, k₁)) := by
        rcases hwakes with rfl | hwakes
        · exact hsound.bystand hn (.refl w)
        · exact hsound.wakes hexpected hn hwakes
      have hgone := hwoken.goes hsound₁ hself hk₁ hgoes
      have hseen := goes_line hk₁ hgoes
      rw [List.set_set] at hgone
      cases hk' : k'.isWaiting with
      | true =>
          rw [hk'] at hgone hseen
          obtain ⟨t, ht, hle⟩ := hseen
          have hnew : L.hasNewTicket w w' = true := by
            refine List.any_eq_true.mpr ⟨t, ht, ?_⟩
            have hnot : t ∉ L.line w := fun hold =>
              absurd (hsound.issued t hold) (Nat.not_lt.mpr hle)
            simpa using hnot
          rw [hnew]
          exact hgone
      | false =>
          rw [hk'] at hgone hseen
          rw [hasNewTicket_eq_false hseen]
          exact hgone

/-! ## Runs -/

/-- All calls go by the protocol, and the last one in line decides. -/
structure Orderly (L : Subject χ) (before : Bool) (last : Option HostCall)
    (p : Pool HostCall (World χ) Unit) (entries : List (Task HostCall (World χ) Unit × Place)) :
    Prop where
  governs : L.protocol.Governs L.Sound p entries
  decided : L.Decided before last p.state (entries.map fun e => (e.1.call, e.2))

variable {p : Pool HostCall (World χ) Unit}
  {entries : List (Task HostCall (World χ) Unit × Place)}

theorem Loaded.lineOf_eq (h : L.Loaded w) : w.lineOf L.id = L.line w := by
  obtain ⟨e, hfind, hqueue, -⟩ := h.record
  simp [World.lineOf, line, hfind, hqueue]

theorem Loaded.getsInLine_eq (h : L.Loaded p.state)
    {move : Move HostCall (World χ → World χ)}
    (h' : L.Loaded ((hostCalls L.code).step p move).state) :
    HostCall.getsInLine L.code L.id p move =
      L.hasNewTicket p.state ((hostCalls L.code).step p move).state := by
  rw [HostCall.getsInLine, h.lineOf_eq, h'.lineOf_eq, hasNewTicket]

/-- A move by which the state does not change makes nobody get in line. -/
theorem Loaded.getsInLine_of_state_eq (h : L.Loaded p.state)
    (move : Move HostCall (World χ → World χ))
    (hsame : ((hostCalls L.code).step p move).state = p.state) :
    HostCall.getsInLine L.code L.id p move = false := by
  rw [h.getsInLine_eq (hsame ▸ h), hsame]
  exact hasNewTicket_eq_false fun _ ht => ht

/-- What leaves the extension alone makes nobody get in line for it. -/
theorem Loaded.getsInLine_outside (h : L.Loaded p.state) {change : World χ → World χ}
    (hs : L.Bystands p.state (change p.state)) :
    HostCall.getsInLine L.code L.id p (.outside change) = false := by
  have hloaded : L.Loaded ((hostCalls L.code).step p (.outside change)).state :=
    h.keep_record hs.toKeepsQueues hs.record
  rw [h.getsInLine_eq hloaded]
  exact hasNewTicket_eq_false fun t ht => hs.line ▸ ht

theorem Orderly.turn (h : L.Orderly before last p entries)
    (hexpected : L.IsReliable → p.state.CanMake L.id) (n : Nat) : ∃ entries',
    L.Orderly before (if HostCall.getsInLine L.code L.id p (.turn n) then
      HostCall.caller? p (.turn n) else last) (p.turn n) entries' := by
  have hloaded := h.governs.sound.loaded
  by_cases hready : ∃ t, p.tasks[n]? = some t ∧ t.isReady p.now p.state = true
  · obtain ⟨t, hn, hready⟩ := hready
    obtain ⟨k, k₁, k', hentry, hwakes, hgoes, hgoverns⟩ :=
      h.governs.turn (keeps_protocol L) hexpected hn hready
    have hplace : (entries.map fun e => (e.1.call, e.2))[n]? = some (t.call, k) := by
      simp [hentry]
    have hdecided := h.decided.turn h.governs.sound hexpected hplace hwakes hgoes
    obtain ⟨calls, hplaces⟩ := Protocol.places_afterTurn L.protocol p entries n t k'
    refine ⟨_, hgoverns, ?_⟩
    have hnew : HostCall.getsInLine L.code L.id p (.turn n) =
        L.hasNewTicket p.state (p.turn n).state := hloaded.getsInLine_eq hgoverns.sound.loaded
    have hcaller : HostCall.caller? p (.turn n) = some t.call := by simp [HostCall.caller?, hn]
    rw [hplaces, hnew, hcaller]
    exact hdecided.starts calls
  · have hidle : p.turn n = p := Protocol.turn_of_not_ready hready
    rw [hidle, hloaded.getsInLine_of_state_eq (.turn n) (congrArg Pool.state hidle)]
    exact ⟨entries, h⟩

theorem Orderly.step (hfit : L.Fits) (h : L.Orderly before last p entries)
    (hexpected : L.IsReliable → p.state.CanMake L.id)
    {move : Move HostCall (World χ → World χ)}
    (houtside : ∀ change, move = .outside change → ∀ w, L.Bystands w (change w)) : ∃ entries',
    L.Orderly before
      (if HostCall.getsInLine L.code L.id p move then HostCall.caller? p move else last)
      ((hostCalls L.code).step p move) entries' := by
  have hloaded := h.governs.sound.loaded
  cases move with
  | turn n => exact h.turn hexpected n
  | start call =>
      rw [hloaded.getsInLine_of_state_eq (.start call) rfl]
      refine ⟨_, h.governs.start (keeps_protocol L) fun s _ => hfit.follows_flow call s, ?_⟩
      rw [List.map_append]
      exact h.decided.starts [call]
  | pass time =>
      have hpass : p.pass time = { p with now := time } ∨ p.pass time = p := by
        unfold Pool.pass
        split
        · exact .inl rfl
        · exact .inr rfl
      have hsame : (p.pass time).state = p.state := by rcases hpass with h | h <;> rw [h]
      have hstep : (hostCalls L.code).step p (.pass time) = p.pass time := rfl
      rw [hloaded.getsInLine_of_state_eq (.pass time) hsame, hstep]
      rcases hpass with hpass | hpass <;> rw [hpass]
      · exact ⟨entries, h.governs.pass time, h.decided⟩
      · exact ⟨entries, h⟩
  | outside change =>
      have hs := houtside change rfl p.state
      rw [hloaded.getsInLine_outside hs]
      refine ⟨entries, h.governs.outside fun l hl => hl.disturb hs, ?_⟩
      exact h.decided.keep hs.line (fun _ => isActive_congr hs.record) fun c k hmem =>
        .inr ⟨k, hmem, rfl⟩

theorem Orderly.run (hfit : L.Fits) (h : L.Orderly before last p entries)
    {moves : List (Move HostCall (World χ → World χ))}
    (houtside : ∀ change, .outside change ∈ moves → ∀ w, L.Bystands w (change w))
    (hreliable : L.IsReliable →
      (hostCalls L.code).Along (fun p _ => p.state.CanMake L.id) p moves) : ∃ entries',
    L.Orderly before (HostCall.lastInLine L.code L.id last p moves)
      ((hostCalls L.code).run p moves) entries' := by
  induction moves generalizing p entries last with
  | nil => exact ⟨entries, h⟩
  | cons move moves ih =>
      obtain ⟨entries', h'⟩ := h.step hfit (fun hr => (hreliable hr).1)
        fun change heq => houtside change (heq ▸ List.mem_cons_self)
      exact ih h' (fun change hchange => houtside change (List.mem_cons_of_mem _ hchange))
        fun hr => (hreliable hr).2

/-- When all calls are over, nobody is in line. -/
theorem Orderly.line_eq_nil (h : L.Orderly before last p entries)
    (hover : ∀ t ∈ p.tasks, t.rest.isDone = true) : L.line p.state = [] := by
  refine List.eq_nil_iff_forall_not_mem.mpr fun t ht => ?_
  obtain ⟨n, c, k, hn, ht⟩ := (h.governs.sound.inLine t).mp ht
  rw [List.getElem?_map, Option.map_eq_some_iff] at hn
  obtain ⟨e, he, heq⟩ := hn
  have hout : e.2.IsOut := h.governs.out (keeps_protocol L) hover (List.mem_of_getElem? he)
  obtain rfl : e.2 = k := (Prod.mk.inj heq).2
  rcases hout with hk | hk <;> simp [hk, Place.ticket?] at ht

/-- When all calls are over, the module is where the extension's record says. -/
theorem Orderly.rests (h : L.Orderly before last p entries)
    (hover : ∀ t ∈ p.tasks, t.rest.isDone = true) : L.Rests p.state := by
  refine h.governs.sound.rests fun e he => ?_
  obtain ⟨entry, hentry, rfl⟩ := List.mem_map.mp he
  have hout : entry.2.IsOut := h.governs.out (keeps_protocol L) hover hentry
  rcases hout with hk | hk <;> simp [hk, Place.isInTurn]

/-- Before anything begins nobody has got in line. -/
theorem orderly_nil (hidle : w.host.Idle L.code) {e : Extension}
    (hfind : w.host.find? L.id = some e) (hqueue : e.queue = L.queue)
    (hat : L.At (restPhase e) w) : L.Orderly e.isActive none { state := w } [] := by
  have hsound : L.Sound w [] := sound_nil hidle hfind hqueue hat
  have hline : L.line w = [] := by
    refine List.eq_nil_iff_forall_not_mem.mpr fun t ht => ?_
    obtain ⟨n, c, k, hn, -⟩ := (hsound.inLine t).mp ht
    cases hn
  exact ⟨Protocol.governs_nil hsound, decided_nil (isActive_of_find? hfind) hline⟩

/-! ## As long as nobody gets in line -/

/-- An extension is loaded, and active. -/
def Runs (L : Subject χ) (w : World χ) : Prop := L.Loaded w ∧ L.isActive w = true

theorem Runs.keep (h : L.Runs w) (hqueues : w.KeepsQueues w')
    (hrecord : w'.host.find? L.id = w.host.find? L.id) : L.Runs w' :=
  ⟨h.1.keep_record hqueues hrecord, (isActive_congr hrecord).trans h.2⟩

/-- Who gets in line does so by its turn. -/
theorem Orderly.isSome_caller? (h : L.Orderly before last p entries)
    {move : Move HostCall (World χ → World χ)}
    (houtside : ∀ change, move = .outside change → ∀ w, L.Bystands w (change w))
    (hgets : HostCall.getsInLine L.code L.id p move = true) :
    (HostCall.caller? p move).isSome = true := by
  have hloaded := h.governs.sound.loaded
  have hmoves (hsame : ((hostCalls L.code).step p move).state = p.state) :
      (HostCall.caller? p move).isSome = true := by
    rw [hloaded.getsInLine_of_state_eq move hsame] at hgets
    cases hgets
  cases move with
  | start call => exact hmoves rfl
  | turn n =>
      cases hn : p.tasks[n]? with
      | none =>
          have hidle : p.turn n = p := Protocol.turn_of_not_ready (by simp [hn])
          exact hmoves (congrArg Pool.state hidle)
      | some t => simp [HostCall.caller?, hn]
  | pass time =>
      refine hmoves ?_
      simp only [System.step, Pool.pass]
      split <;> rfl
  | outside change =>
      rw [hloaded.getsInLine_outside (houtside change rfl p.state)] at hgets
      cases hgets

section Untouched

variable (hfit : L.Fits) {moves : List (Move HostCall (World χ → World χ))}
  (houtside : ∀ change, .outside change ∈ moves → ∀ w, L.Bystands w (change w))
  (hreliable : L.IsReliable →
    (hostCalls L.code).Along (fun p _ => p.state.CanMake L.id) p moves)

include hfit houtside hreliable

/-- If nobody has got in line in the end, nobody had before. -/
theorem Orderly.eq_none_of_lastInLine (h : L.Orderly before last p entries)
    (hnone : HostCall.lastInLine L.code L.id last p moves = none) : last = none := by
  induction moves generalizing p entries last with
  | nil => exact hnone
  | cons move moves ih =>
      have hmove (change : World χ → World χ) (heq : move = .outside change) :
          ∀ w, L.Bystands w (change w) := houtside change (heq ▸ List.mem_cons_self)
      obtain ⟨entries', h'⟩ := h.step hfit (fun hr => (hreliable hr).1) hmove
      have hnext := ih (fun change hchange => houtside change (List.mem_cons_of_mem _ hchange))
        (fun hr => (hreliable hr).2) h' hnone
      split at hnext
      next hgets =>
        have hsome := h.isSome_caller? hmove hgets
        rw [hnext] at hsome
        cases hsome
      · exact hnext

/-- As long as nobody gets in line for an active extension, a call that is bound to see somebody in
line has still to. -/
theorem Orderly.bringsAbout_run (h : L.Orderly true none p entries)
    (hnone : HostCall.lastInLine L.code L.id none p moves = none) {n : Nat}
    {t : Task HostCall (World χ) Unit} (hn : p.tasks[n]? = some t)
    (hbound : t.rest.BringsAbout L.Runs fun w => L.line w ≠ []) :
    ∃ t', ((hostCalls L.code).run p moves).tasks[n]? = some t' ∧
      t'.rest.BringsAbout L.Runs fun w => L.line w ≠ [] := by
  induction moves generalizing p entries t with
  | nil => exact ⟨t, hn, hbound⟩
  | cons move moves ih =>
      have hlater (change : World χ → World χ) (hchange : .outside change ∈ moves) :
          ∀ w, L.Bystands w (change w) := houtside change (List.mem_cons_of_mem _ hchange)
      have hreliable' := fun hr => (hreliable hr).2
      obtain ⟨entries', h'⟩ := h.step hfit (fun hr => (hreliable hr).1)
        fun change heq => houtside change (heq ▸ List.mem_cons_self)
      rw [HostCall.lastInLine] at hnone
      have hstill := h'.eq_none_of_lastInLine hfit hlater hreliable' hnone
      rw [hstill] at h' hnone
      have hfound := System.bringsAbout_step ((hostCalls L.code).step_cases p move)
        ⟨h.governs.sound.loaded, (h.decided.untouched rfl).2⟩ hn hbound
      obtain ⟨t', hn', hbound'⟩ := hfound.resolve_left fun hline =>
        hline (h'.decided.untouched rfl).1
      exact ih hlater hreliable' h' hnone hn' hbound'

end Untouched

/-! ## An extension of which nothing else is looked at -/

/-- An extension that has every phase at any time. -/
def plain (code : Code χ) (id : String) (queue : QueueId) (isReliable : Prop) : Subject χ where
  code
  id
  queue
  At _ _ := True
  IsReliable := isReliable

section Plain

variable {code : Code χ} {id : String} {queue : QueueId} {isReliable : Prop}

theorem bystands_plain {w w' : World χ} (h : World.SameHost w w') :
    (plain code id queue isReliable).Bystands w w' :=
  ⟨aside_of_eq h.extensions h.queues h.tickets, fun _ h => h⟩

/-- Code that spares the host's books fits an extension of which nothing else is looked at. -/
theorem fits_plain (hcode : code.SparesHost) : (plain code id queue isReliable).Fits where
  listener callback notice w := bystands_plain (hcode.listener callback notice w)
  undo callback w := bystands_plain (hcode.undo callback w)
  others other entry hentry _ :=
    ⟨fun context => (hcode.activate other entry hentry context).mono fun _ _ => bystands_plain,
      (hcode.deactivate other entry hentry).mono fun _ _ => bystands_plain⟩
  fades _ _ _ _ _ h := h
  activate entry hentry c context t w := by
    have hactivate : (entry.activate context).Within (plain code id queue isReliable).Bystands :=
      (hcode.activate id entry hentry context).mono fun _ _ => bystands_plain
    exact (follows_of_within hactivate rfl).mono fun _ _ hk => ⟨.outside, hk, fun _ h => h⟩
  deactivate entry hentry c context t w := by
    have hdeactivate : entry.deactivate.Within (plain code id queue isReliable).Bystands :=
      (hcode.deactivate id entry hentry).mono fun _ _ => bystands_plain
    exact (follows_of_within hdeactivate rfl).mono fun _ _ hk => ⟨_, hk, fun _ h => h⟩
  arrives _ _ _ _ _ _ _ _ := trivial
  departs _ _ _ _ _ := trivial
  disposes _ _ _ := trivial
  kills _ _ := trivial
  releases _ _ _ := trivial

end Plain

end Subject

theorem HostCall.lastInLine_append (code : Code χ) (id : String) (last : Option HostCall)
    (p : Pool HostCall (World χ) Unit)
    (earlier later : List (Move HostCall (World χ → World χ))) :
    lastInLine code id last p (earlier ++ later) =
      lastInLine code id (lastInLine code id last p earlier) ((hostCalls code).run p earlier)
        later := by
  induction earlier generalizing last p with
  | nil => rfl
  | cons move moves ih => exact ih _ _

/-- When all calls are over, an extension is active only if the call that got in line for it last
wants it to be active; and it is active then, if activations can make what they need. -/
theorem HostCall.isActive_run {code : Code χ} (hcode : code.SparesHost) {w : World χ}
    (hidle : w.host.Idle code) {id : String} {e : Extension} (hfind : w.host.find? id = some e)
    {moves : List (Move HostCall (World χ → World χ))}
    (houtside : ∀ change, .outside change ∈ moves → ∀ w, World.SameHost w (change w))
    (hover : ∀ t ∈ ((hostCalls code).run { state := w } moves).tasks, t.rest.isDone = true) :
    let last := lastInLine code id none { state := w } moves
    let isActive := ((hostCalls code).run { state := w } moves).state.host.isActive id
    (isActive = true → decision e.isActive last = true) ∧
      ((hostCalls code).Along (fun p _ => p.state.CanMake id) { state := w } moves →
        decision e.isActive last = true → isActive = true) := by
  intro last isActive
  let L := Subject.plain code id e.queue
    ((hostCalls code).Along (fun p _ => p.state.CanMake id) { state := w } moves)
  have hstart : L.Orderly e.isActive none { state := w } [] :=
    Subject.orderly_nil hidle hfind rfl trivial
  obtain ⟨entries, h⟩ := hstart.run (Subject.fits_plain hcode)
    (fun change hchange w => Subject.bystands_plain (houtside change hchange w)) fun h => h
  have hnil := h.line_eq_nil hover
  exact ⟨h.decided.active hnil, h.decided.inactive hnil⟩

end EditorHost
