import EditorHost.Proofs.Extension.HostCalls
import EditorHost.Proofs.Protocol

/-!
# In line for an extension

Whoever wants to activate or deactivate an extension takes a ticket of its queue, waits until it is
the first in line, does what it came for, and gives the ticket back.  As a protocol: only the call
whose ticket is first in line touches the extension and runs its module; all others leave it as it
is.

What the module has to do with the world is not said here.  It is a resource that goes through
phases: outside while the module is not in use, inside while it is active.  Whoever has its turn
takes it from one to the other, and when nobody has, it is where the extension's record says.
-/

namespace EditorHost

variable {χ : Type}

/-- What every act keeps: loaded extensions have the queues that they had, and the numbers of
tickets go up. -/
structure World.KeepsQueues (w w' : World χ) : Prop where
  owners : ∀ other e', w'.host.find? other = some e' →
    ∃ e, w.host.find? other = some e ∧ e'.queue = e.queue
  room : w.host.queues.length ≤ w'.host.queues.length
  tickets : w.host.tickets ≤ w'.host.tickets

theorem World.KeepsQueues.trans {w w' w'' : World χ} (h : w.KeepsQueues w')
    (h' : w'.KeepsQueues w'') : w.KeepsQueues w'' := by
  refine ⟨fun other e'' hother => ?_, Nat.le_trans h.room h'.room,
    Nat.le_trans h.tickets h'.tickets⟩
  obtain ⟨e', hfind', hqueue'⟩ := h'.owners other e'' hother
  obtain ⟨e, hfind, hqueue⟩ := h.owners other e' hfind'
  exact ⟨e, hfind, hqueue'.trans hqueue⟩

theorem World.KeepsQueues.refl (w : World χ) : w.KeepsQueues w :=
  ⟨fun _ e' h => ⟨e', h, rfl⟩, Nat.le_refl _, Nat.le_refl _⟩

theorem World.keepsQueues_modify (w : World χ) (id : String) {change : Extension → Extension}
    (hqueue : ∀ e, (change e).queue = e.queue) :
    w.KeepsQueues (World.hostPart.modify (fun h => h.modify id change) w) := by
  refine ⟨fun other e' he' => ?_, Nat.le_refl _, Nat.le_refl _⟩
  have hother := (w.host.find?_modify id other change).symm.trans he'
  split at hother
  · obtain ⟨e, he, rfl⟩ := Option.map_eq_some_iff.mp hother
    exact ⟨e, he, hqueue e⟩
  · exact ⟨e', hother, rfl⟩

/-- How far an extension has got with its entry module. -/
inductive Phase where
  | outside
  /-- The module is being activated in a context. -/
  | entering (context : ContextId)
  | entered (context : ContextId)
  | inside
  /-- The extension is inactive, and its module does not know yet. -/
  | leaving (context : Option ContextId)
  /-- The module is being told of the deactivation. -/
  | told (context : Option ContextId)
  | left (context : Option ContextId)
  /-- What was given to the context has been undone. -/
  | disposed
  /-- The processes have been killed as well. -/
  | cleared
  deriving DecidableEq

/-- An extension that is looked at. -/
structure Subject (χ : Type) where
  code : Code χ
  id : String
  queue : QueueId
  /-- What holds of a world in a phase. -/
  At : Phase → World χ → Prop
  /-- Whether activations can always make what they need. -/
  IsReliable : Prop

/-- Where a call is with respect to an extension. -/
inductive Place where
  /-- It has nothing to do with the extension. -/
  | away
  | waiting (ticket : Nat)
  /-- It is the call's turn. -/
  | called (ticket : Nat)
  /-- The extension is inactive, and the call makes it active or has just made it inactive. -/
  | busy (ticket : Nat) (phase : Phase)
  /-- The extension is as the call wants it to be. -/
  | served (ticket : Nat)
  /-- The extension could not be made active. -/
  | failed (ticket : Nat)
  /-- The call has given its ticket back. -/
  | gone
  deriving DecidableEq

namespace Place

def ticket? : Place → Option Nat
  | away | gone => none
  | waiting t | called t | busy t _ | served t | failed t => some t

def isWaiting : Place → Bool
  | waiting _ => true
  | _ => false

/-- Whether it is the call's turn. -/
def isInTurn : Place → Bool
  | called _ | busy _ _ | served _ | failed _ => true
  | _ => false

/-- The call has nothing to do with the extension, or is through with it. -/
def IsOut (k : Place) : Prop := k = away ∨ k = gone

theorem IsOut.isWaiting {k : Place} (h : k.IsOut) : k.isWaiting = false := by
  rcases h with rfl | rfl <;> rfl

theorem ticket?_of_isInTurn {k : Place} (h : k.isInTurn = true) : ∃ t, k.ticket? = some t := by
  cases k <;> first | exact ⟨_, rfl⟩ | cases h

end Place

namespace Subject

variable (L : Subject χ)

def line (w : World χ) : List Nat := (w.host.queues[L.queue]?).getD []

def isActive (w : World χ) : Bool := w.host.isActive L.id

/-- The phase in which the module is while nobody is busy with the extension. -/
def restPhase (e : Extension) : Phase := if e.hasModule then .inside else .outside

def Rests (w : World χ) : Prop := ∀ e, w.host.find? L.id = some e → L.At (restPhase e) w

/-- The extension is loaded, and has its queue for itself. -/
structure Loaded (w : World χ) : Prop where
  record : ∃ e, w.host.find? L.id = some e ∧ e.queue = L.queue ∧
    (e.hasModule = true → e.isActive = true ∧ (L.code.entry L.id).isSome = true)
  owners : ∀ other e, w.host.find? other = some e → e.queue = L.queue → other = L.id
  room : L.queue < w.host.queues.length

/-- What a call with a turn can rely on. -/
def Holds (c : HostCall) : Place → World χ → Prop
  | .called _, w => L.Rests w
  | .busy _ phase, w => L.isActive w = false ∧ L.At phase w
  | .served _, w => L.isActive w = c.activates ∧ L.Rests w
  | .failed _, w => L.isActive w = false ∧ c.activates = true ∧ ¬L.IsReliable ∧ L.Rests w
  | _, _ => True

structure Knows (c : HostCall) (k : Place) (w : World χ) : Prop where
  loaded : L.Loaded w
  first : k.isInTurn = true → (L.line w).head? = k.ticket?
  holds : L.Holds c k w

/-! ## What calls do -/

/-- The extension and its line stay as they are. -/
structure Aside (w w' : World χ) : Prop extends World.KeepsQueues w w' where
  record : w'.host.find? L.id = w.host.find? L.id
  line : L.line w' = L.line w

/-- Nothing happens to the extension, its line and its module. -/
structure Bystands (w w' : World χ) : Prop extends L.Aside w w' where
  phases : ∀ phase, L.At phase w → L.At phase w'

/-- A ticket is taken. -/
structure Joins (w w' : World χ) : Prop extends World.KeepsQueues w w' where
  record : w'.host.find? L.id = w.host.find? L.id
  phases : ∀ phase, L.At phase w → L.At phase w'
  line : L.line w' = L.line w ++ [w.host.tickets]
  ticket : w.host.tickets < w'.host.tickets

/-- A ticket is given back. -/
structure Quits (ticket : Nat) (w w' : World χ) : Prop extends World.KeepsQueues w w' where
  record : w'.host.find? L.id = w.host.find? L.id
  phases : ∀ phase, L.At phase w → L.At phase w'
  line : L.line w' = (L.line w).erase ticket

/-- The extension becomes active or inactive. -/
structure Alters (w w' : World χ) (e e' : Extension) : Prop extends World.KeepsQueues w w' where
  line : L.line w' = L.line w
  before : w.host.find? L.id = some e
  behind : w'.host.find? L.id = some e'
  queue : e'.queue = e.queue
  modules : e'.hasModule = true → e'.isActive = true ∧ (L.code.entry L.id).isSome = true

/-- What a call at a place may do. -/
inductive May (c : HostCall) : Place → World χ → Place → World χ → Prop
  | bystand {k w w'} (hk : k.isWaiting = false) (h : L.Bystands w w') : May c k w k w'
  | join {w w'} (h : L.Joins w w') : May c .away w (.waiting w.host.tickets) w'
  | work {t phase phase' w w'} (h : L.Aside w w') (hphase : L.At phase w → L.At phase' w') :
      May c (.busy t phase) w (.busy t phase') w'
  | activated {t phase w w' e e'} (hc : c.activates = true) (h : L.Alters w w' e e')
      (hactive : e'.isActive = true) (hphase : L.At phase w → L.At (restPhase e') w') :
      May c (.busy t phase) w (.served t) w'
  | deactivated {t phase w w' e e'} (hc : c.activates = false) (h : L.Alters w w' e e')
      (hactive : e'.isActive = false) (hphase : L.At (restPhase e) w → L.At phase w') :
      May c (.called t) w (.busy t phase) w'
  | released {t phase w w'} (hc : c.activates = false) (h : L.Aside w w')
      (hphase : L.isActive w = false → L.At phase w → L.At .outside w') :
      May c (.busy t phase) w (.served t) w'
  | quit {k t w w'} (hk : k = .served t ∨ k = .failed t) (h : L.Quits t w w') : May c k w .gone w'

/-- Where a call may be when a wait ends. -/
inductive Wakes (c : HostCall) : Place → World χ → Place → Prop
  | stay {k w} (hk : k.isWaiting = false) : Wakes c k w k
  | call {t w} (h : (L.line w).head? = some t) : Wakes c (.waiting t) w (.called t)
  | needless {t w} (h : L.isActive w = c.activates) : Wakes c (.called t) w (.served t)
  | fail {t w} (hc : c.activates = true) (hactive : L.isActive w = false)
      (h : ¬w.CanMake L.id) : Wakes c (.called t) w (.failed t)
  | setOut {t w} (hactive : L.isActive w = false) :
      Wakes c (.called t) w (.busy t .outside)
  | back {w} : Wakes c .gone w .away

/-- The protocol of an extension's line. -/
def protocol : Protocol HostCall (World χ) Place where
  Knows := L.Knows
  May := L.May
  Wakes := L.Wakes
  first _ := .away
  home := .away
  IsOut := Place.IsOut

/-- What holds of all calls under way. -/
structure Sound (w : World χ) (l : List (HostCall × Place)) : Prop where
  loaded : L.Loaded w
  /-- The line consists of the tickets that calls hold. -/
  inLine : ∀ t, t ∈ L.line w ↔ ∃ (n : Nat) (c : HostCall) (k : Place),
    l[n]? = some (c, k) ∧ k.ticket? = some t
  unique : ∀ {n m t : Nat} {c c' : HostCall} {k k' : Place}, l[n]? = some (c, k) →
    l[m]? = some (c', k') → k.ticket? = some t → k'.ticket? = some t → n = m
  nodup : (L.line w).Nodup
  issued : ∀ t ∈ L.line w, t < w.host.tickets
  knows : ∀ {n : Nat} {c : HostCall} {k : Place}, l[n]? = some (c, k) → L.Knows c k w
  rests : (∀ e ∈ l, e.2.isInTurn = false) → L.Rests w

variable {L} {w w' : World χ} {l : List (HostCall × Place)} {c : HostCall} {k k' : Place} {n : Nat}

/-! ## What is kept -/

theorem Bystands.refl (w : World χ) : L.Bystands w w :=
  ⟨⟨.refl w, rfl, rfl⟩, fun _ h => h⟩

theorem Bystands.trans (w₁ w₂ w₃ : World χ) (h : L.Bystands w₁ w₂) (h' : L.Bystands w₂ w₃) :
    L.Bystands w₁ w₃ :=
  ⟨⟨h.toKeepsQueues.trans h'.toKeepsQueues, h'.record.trans h.record, h'.line.trans h.line⟩,
    fun phase hphase => h'.phases phase (h.phases phase hphase)⟩

theorem isActive_congr (h : w'.host.find? L.id = w.host.find? L.id) :
    L.isActive w' = L.isActive w := by
  simp [isActive, Host.isActive, h]

theorem isActive_of_find? {e : Extension} (h : w.host.find? L.id = some e) :
    L.isActive w = e.isActive := by
  simp [isActive, Host.isActive, h]

theorem Rests.keep (h : L.Rests w) (hrecord : w'.host.find? L.id = w.host.find? L.id)
    (hphases : ∀ phase, L.At phase w → L.At phase w') : L.Rests w' :=
  fun e he => hphases _ (h e (hrecord ▸ he))

theorem Holds.keep (h : L.Holds c k w) (hrecord : w'.host.find? L.id = w.host.find? L.id)
    (hphases : ∀ phase, L.At phase w → L.At phase w') : L.Holds c k w' := by
  have hactive := isActive_congr hrecord
  cases k with
  | away => trivial
  | waiting t => trivial
  | gone => trivial
  | called t => exact Rests.keep h hrecord hphases
  | busy t phase => exact ⟨hactive.trans h.1, hphases phase h.2⟩
  | served t => exact ⟨hactive.trans h.1, h.2.keep hrecord hphases⟩
  | failed t => exact ⟨hactive.trans h.1, h.2.1, h.2.2.1, h.2.2.2.keep hrecord hphases⟩

theorem Loaded.keep (h : L.Loaded w) (hqueues : w.KeepsQueues w')
    (hrecord : ∃ e, w'.host.find? L.id = some e ∧ e.queue = L.queue ∧
      (e.hasModule = true → e.isActive = true ∧ (L.code.entry L.id).isSome = true)) :
    L.Loaded w' := by
  refine ⟨hrecord, fun other e' hfind hqueue => ?_, Nat.lt_of_lt_of_le h.room hqueues.room⟩
  obtain ⟨e, hfind, hsame⟩ := hqueues.owners other e' hfind
  exact h.owners other e hfind (hsame ▸ hqueue)

theorem Loaded.keep_record (h : L.Loaded w) (hqueues : w.KeepsQueues w')
    (hrecord : w'.host.find? L.id = w.host.find? L.id) : L.Loaded w' :=
  h.keep hqueues (hrecord ▸ h.record)

theorem Alters.loaded {e e' : Extension} (h : L.Loaded w) (halters : L.Alters w w' e e') :
    L.Loaded w' := by
  refine h.keep halters.toKeepsQueues ⟨e', halters.behind, ?_, halters.modules⟩
  obtain ⟨e₁, hfind, hqueue, -⟩ := h.record
  rw [halters.before, Option.some.injEq] at hfind
  rw [halters.queue, hfind, hqueue]

theorem Knows.of_not_inTurn (h : L.Loaded w) (hk : k.isInTurn = false) : L.Knows c k w := by
  refine ⟨h, fun hturn => absurd hturn (by simp [hk]), ?_⟩
  cases k <;> trivial

theorem Knows.keep (h : L.Knows c k w) (hqueues : w.KeepsQueues w')
    (hrecord : w'.host.find? L.id = w.host.find? L.id)
    (hphases : ∀ phase, L.At phase w → L.At phase w')
    (hfirst : k.isInTurn = true → (L.line w').head? = (L.line w).head?) : L.Knows c k w' :=
  ⟨h.loaded.keep_record hqueues hrecord, fun hk => (hfirst hk).trans (h.first hk),
    h.holds.keep hrecord hphases⟩

/-! ## Who is first in line -/

/-- No two calls have a turn. -/
theorem Sound.inTurn_unique (h : L.Sound w l) {m : Nat} {c' : HostCall}
    (hn : l[n]? = some (c, k)) (hk : k.isInTurn = true) (hm : l[m]? = some (c', k'))
    (hk' : k'.isInTurn = true) : m = n := by
  obtain ⟨t, ht⟩ := Place.ticket?_of_isInTurn hk
  have hfirst := (h.knows hn).first hk
  have hfirst' := (h.knows hm).first hk'
  exact h.unique hm hn (hfirst'.symm.trans (hfirst.trans ht)) ht

/-- When a ticket is first in line, nobody but its holder has a turn. -/
theorem Sound.eq_of_first (h : L.Sound w l) {m t : Nat} {c' : HostCall}
    (hn : l[n]? = some (c, k)) (hk : k.ticket? = some t) (hfirst : (L.line w).head? = some t)
    (hm : l[m]? = some (c', k')) (hk' : k'.isInTurn = true) : m = n :=
  h.unique hm hn (((h.knows hm).first hk').symm.trans hfirst) hk

theorem Sound.rests_of_others (h : L.Sound w l) (hn : l[n]? = some (c, k))
    (hk : k.isInTurn = false)
    (hothers : ∀ m c' k', l[m]? = some (c', k') → m ≠ n → k'.isInTurn = false) : L.Rests w := by
  refine h.rests fun e he => ?_
  obtain ⟨m, hm⟩ := List.mem_iff_getElem?.mp he
  by_cases hne : m = n
  · subst hne
    rw [hn, Option.some.injEq] at hm
    exact hm ▸ hk
  · exact hothers m e.1 e.2 hm hne

/-- One call comes to another place, and may take or give back a ticket by that. -/
theorem Sound.move (h : L.Sound w l) (hn : l[n]? = some (c, k)) (hloaded : L.Loaded w')
    (hline : ∀ t, t ∈ L.line w' ↔ (t ∈ L.line w ∧ k.ticket? ≠ some t) ∨ k'.ticket? = some t)
    (hnew : ∀ t, k'.ticket? = some t → k.ticket? = some t ∨ t ∉ L.line w)
    (hnodup : (L.line w').Nodup) (hissued : ∀ t ∈ L.line w', t < w'.host.tickets)
    (hothers : ∀ m c' k'', l[m]? = some (c', k'') → m ≠ n → L.Knows c' k'' w')
    (hknows : L.Knows c k' w')
    (hrests : k'.isInTurn = false → (∀ m c' k'', l[m]? = some (c', k'') → m ≠ n →
      k''.isInTurn = false) → L.Rests w') : L.Sound w' (l.set n (c, k')) := by
  have hlt : n < l.length := (List.getElem?_eq_some_iff.mp hn).1
  have hself : (l.set n (c, k'))[n]? = some (c, k') := List.getElem?_set_self hlt
  have hother {m : Nat} (hm : m ≠ n) : (l.set n (c, k'))[m]? = l[m]? :=
    List.getElem?_set_ne (Ne.symm hm)
  -- A ticket that another call holds is in line, and is not the one that this call comes to hold.
  have hapart {m c' k'' t} (hm : m ≠ n) (hentry : l[m]? = some (c', k''))
      (ht : k''.ticket? = some t) : k'.ticket? ≠ some t := by
    intro ht'
    rcases hnew t ht' with hsame | hnot
    · exact hm (h.unique hentry hn ht hsame)
    · exact hnot ((h.inLine t).mpr ⟨m, c', k'', hentry, ht⟩)
  refine ⟨hloaded, fun t => ?_, ?_, hnodup, hissued, ?_, fun hturn => ?_⟩
  · rw [hline t]
    constructor
    · rintro (⟨hmem, hnot⟩ | ht)
      · obtain ⟨m, c', k'', hentry, ht⟩ := (h.inLine t).mp hmem
        have hm : m ≠ n := by
          rintro rfl
          rw [hn, Option.some.injEq, Prod.mk.injEq] at hentry
          exact hnot (hentry.2 ▸ ht)
        exact ⟨m, c', k'', (hother hm).trans hentry, ht⟩
      · exact ⟨n, c, k', hself, ht⟩
    · rintro ⟨m, c', k'', hentry, ht⟩
      by_cases hm : m = n
      · subst hm
        rw [hself, Option.some.injEq, Prod.mk.injEq] at hentry
        exact .inr (hentry.2 ▸ ht)
      · rw [hother hm] at hentry
        refine .inl ⟨(h.inLine t).mpr ⟨m, c', k'', hentry, ht⟩, fun hk => ?_⟩
        exact hm (h.unique hentry hn ht hk)
  · intro m₁ m₂ c₁ c₂ k₁ k₂ t h₁ h₂ ht₁ ht₂
    by_cases hm₁ : m₁ = n
    · by_cases hm₂ : m₂ = n
      · exact hm₁.trans hm₂.symm
      · subst hm₁
        rw [hself, Option.some.injEq, Prod.mk.injEq] at h₁
        rw [hother hm₂] at h₂
        exact absurd (h₁.2 ▸ ht₁) (hapart hm₂ h₂ ht₂)
    · rw [hother hm₁] at h₁
      by_cases hm₂ : m₂ = n
      · subst hm₂
        rw [hself, Option.some.injEq, Prod.mk.injEq] at h₂
        exact absurd (h₂.2 ▸ ht₂) (hapart hm₁ h₁ ht₁)
      · rw [hother hm₂] at h₂
        exact h.unique h₁ h₂ ht₁ ht₂
  · intro m c' k'' hentry
    by_cases hm : m = n
    · subst hm
      rw [hself, Option.some.injEq, Prod.mk.injEq] at hentry
      exact hentry.1 ▸ hentry.2 ▸ hknows
    · exact hothers m c' k'' ((hother hm).symm.trans hentry) hm
  · refine hrests (hturn (c, k') (List.mem_of_getElem? hself)) fun m c' k'' hentry hm => ?_
    exact hturn (c', k'') (List.mem_of_getElem? ((hother hm).trans hentry))

/-- One call comes to another place, and the line stays as it is. -/
theorem Sound.stay (h : L.Sound w l) (hn : l[n]? = some (c, k)) (hqueues : w.KeepsQueues w')
    (hloaded : L.Loaded w') (hline : L.line w' = L.line w) (hticket : k'.ticket? = k.ticket?)
    (hothers : ∀ m c' k'', l[m]? = some (c', k'') → m ≠ n → L.Knows c' k'' w')
    (hknows : L.Knows c k' w')
    (hrests : k'.isInTurn = false → (∀ m c' k'', l[m]? = some (c', k'') → m ≠ n →
      k''.isInTurn = false) → L.Rests w') : L.Sound w' (l.set n (c, k')) := by
  have hmem (t : Nat) (ht : k.ticket? = some t) : t ∈ L.line w :=
    (h.inLine t).mpr ⟨n, c, k, hn, ht⟩
  refine h.move hn hloaded (fun t => ?_) (fun t ht => .inl (hticket ▸ ht)) (hline ▸ h.nodup)
    (fun t ht => ?_) hothers hknows hrests
  · rw [hline, hticket]
    by_cases ht : k.ticket? = some t
    · simp [ht, hmem t ht]
    · simp [ht]
  · exact Nat.lt_of_lt_of_le (h.issued t (hline ▸ ht)) hqueues.tickets

/-- The call whose turn it is changes something, and keeps its turn. -/
theorem Sound.act (h : L.Sound w l) (hn : l[n]? = some (c, k)) (hk : k.isInTurn = true)
    (hk' : k'.isInTurn = true) (hticket : k'.ticket? = k.ticket?) (hqueues : w.KeepsQueues w')
    (hloaded : L.Loaded w') (hline : L.line w' = L.line w) (hholds : L.Holds c k' w') :
    L.Sound w' (l.set n (c, k')) := by
  refine h.stay hn hqueues hloaded hline hticket (fun m c' k'' hm hne => ?_) ?_ fun hnot => ?_
  · -- Nobody else has a turn, so nobody else relies on what is changed.
    refine .of_not_inTurn hloaded (Bool.eq_false_iff.mpr fun hk'' => ?_)
    exact hne (h.inTurn_unique hn hk hm hk'')
  · refine ⟨hloaded, fun _ => ?_, hholds⟩
    rw [hline, hticket]
    exact (h.knows hn).first hk
  · exact absurd hk' (by simp [hnot])

/-- Nothing happens to the extension. -/
theorem Sound.disturb (h : L.Sound w l) (hs : L.Bystands w w') : L.Sound w' l := by
  refine ⟨h.loaded.keep_record hs.toKeepsQueues hs.record, fun t => ?_, h.unique, ?_,
    fun t ht => ?_, fun hn => ?_, fun hnobody => (h.rests hnobody).keep hs.record hs.phases⟩
  · rw [hs.line]
    exact h.inLine t
  · rw [hs.line]
    exact h.nodup
  · exact Nat.lt_of_lt_of_le (h.issued t (hs.line ▸ ht)) hs.tickets
  · exact (h.knows hn).keep hs.toKeepsQueues hs.record hs.phases fun _ => by rw [hs.line]

theorem Sound.bystand (h : L.Sound w l) (hn : l[n]? = some (c, k)) (hs : L.Bystands w w') :
    L.Sound w' (l.set n (c, k)) := by
  obtain ⟨hlt, hentry⟩ := List.getElem?_eq_some_iff.mp hn
  rw [← hentry, List.set_getElem_self hlt]
  exact h.disturb hs

theorem Sound.join (h : L.Sound w l) (hn : l[n]? = some (c, .away)) (hs : L.Joins w w') :
    L.Sound w' (l.set n (c, .waiting w.host.tickets)) := by
  have hloaded := h.loaded.keep_record hs.toKeepsQueues hs.record
  have hnew : w.host.tickets ∉ L.line w := fun hmem => Nat.lt_irrefl _ (h.issued _ hmem)
  refine h.move hn hloaded (fun t => ?_) (fun t ht => ?_) ?_ (fun t ht => ?_)
    (fun m c' k'' hm _ => ?_) (.of_not_inTurn hloaded rfl) fun _ hothers => ?_
  · simp [hs.line, Place.ticket?, eq_comm]
  · obtain rfl : w.host.tickets = t := by simpa [Place.ticket?] using ht
    exact .inr hnew
  · rw [hs.line]
    refine List.nodup_append.mpr ⟨h.nodup, List.pairwise_singleton _ _, fun t ht t' ht' => ?_⟩
    rintro rfl
    exact hnew (List.mem_singleton.mp ht' ▸ ht)
  · rw [hs.line] at ht
    rcases List.mem_append.mp ht with ht | ht
    · exact Nat.lt_trans (h.issued t ht) hs.ticket
    · exact List.mem_singleton.mp ht ▸ hs.ticket
  · refine (h.knows hm).keep hs.toKeepsQueues hs.record hs.phases fun hk => ?_
    -- Whoever has a turn stays first in line.
    obtain ⟨t, ht⟩ := Place.ticket?_of_isInTurn hk
    have hfirst := ((h.knows hm).first hk).trans ht
    cases hline : L.line w with
    | nil => simp [hline] at hfirst
    | cons first rest => rw [hs.line, hline]; rfl
  · exact (h.rests_of_others hn rfl hothers).keep hs.record hs.phases

theorem Sound.quit (h : L.Sound w l) (hn : l[n]? = some (c, k)) (hk : k.isInTurn = true) {t : Nat}
    (ht : k.ticket? = some t) (hholds : L.Rests w) (hs : L.Quits t w w') :
    L.Sound w' (l.set n (c, .gone)) := by
  have hloaded := h.loaded.keep_record hs.toKeepsQueues hs.record
  refine h.move hn hloaded (fun t' => ?_) (fun _ ht' => (nomatch ht')) ?_ (fun t' ht' => ?_)
    (fun m c' k'' hm hne => ?_) (.of_not_inTurn hloaded rfl)
    fun _ _ => hholds.keep hs.record hs.phases
  · rw [hs.line, h.nodup.mem_erase_iff, ht]
    simp [Place.ticket?, eq_comm, and_comm]
  · rw [hs.line]
    exact h.nodup.erase t
  · rw [hs.line] at ht'
    exact Nat.lt_of_lt_of_le (h.issued t' (List.mem_of_mem_erase ht')) hs.tickets
  · refine .of_not_inTurn hloaded (Bool.eq_false_iff.mpr fun hk'' => ?_)
    exact hne (h.inTurn_unique hn hk hm hk'')

/-! ## The protocol keeps what holds -/

/-- An inactive extension at rest is outside. -/
theorem Loaded.restPhase_eq (h : L.Loaded w) (hactive : L.isActive w = false) {e : Extension}
    (hfind : w.host.find? L.id = some e) : restPhase e = .outside := by
  obtain ⟨e', hfind', -, hmodule⟩ := h.record
  obtain rfl : e = e' := Option.some.inj (hfind.symm.trans hfind')
  have hnone : e.hasModule = false := Bool.eq_false_iff.mpr fun hhas => by
    rw [isActive_of_find? hfind, (hmodule hhas).1] at hactive
    cases hactive
  simp [restPhase, hnone]

theorem Loaded.rests_iff (h : L.Loaded w) (hactive : L.isActive w = false) :
    L.Rests w ↔ L.At .outside w := by
  constructor
  · intro hrests
    obtain ⟨e, hfind, -⟩ := h.record
    exact h.restPhase_eq hactive hfind ▸ hrests e hfind
  · intro hat e hfind
    exact h.restPhase_eq hactive hfind ▸ hat

theorem Sound.may (h : L.Sound w l) (hn : l[n]? = some (c, k)) (hmay : L.May c k w k' w') :
    L.Sound w' (l.set n (c, k')) := by
  have hknows := h.knows hn
  cases hmay with
  | bystand hk hs => exact h.bystand hn hs
  | join hs => exact h.join hn hs
  | work hs hphase =>
      refine h.act hn rfl rfl rfl hs.toKeepsQueues
        (h.loaded.keep_record hs.toKeepsQueues hs.record) hs.line ?_
      exact ⟨(isActive_congr hs.record).trans hknows.holds.1, hphase hknows.holds.2⟩
  | @activated t phase _ _ e e' hc hs hactive hphase =>
      refine h.act hn rfl rfl rfl hs.toKeepsQueues (hs.loaded h.loaded) hs.line
        ⟨(isActive_of_find? hs.behind).trans (hactive.trans hc.symm), fun e'' he'' => ?_⟩
      rw [hs.behind, Option.some.injEq] at he''
      exact he'' ▸ hphase hknows.holds.2
  | deactivated hc hs hactive hphase =>
      refine h.act hn rfl rfl rfl hs.toKeepsQueues (hs.loaded h.loaded) hs.line
        ⟨(isActive_of_find? hs.behind).trans hactive, hphase (hknows.holds _ hs.before)⟩
  | released hc hs hphase =>
      have hactive := (isActive_congr hs.record).trans hknows.holds.1
      have hloaded := h.loaded.keep_record hs.toKeepsQueues hs.record
      have hrests := (hloaded.rests_iff hactive).mpr (hphase hknows.holds.1 hknows.holds.2)
      exact h.act hn rfl rfl rfl hs.toKeepsQueues hloaded hs.line ⟨hactive.trans hc.symm, hrests⟩
  | quit hk hs =>
      rcases hk with rfl | rfl
      · exact h.quit hn rfl rfl hknows.holds.2 hs
      · exact h.quit hn rfl rfl hknows.holds.2.2.2 hs

theorem Sound.wakes (h : L.Sound w l) (hreliable : L.IsReliable → w.CanMake L.id)
    (hn : l[n]? = some (c, k)) (hwakes : L.Wakes c k w k') : L.Sound w (l.set n (c, k')) := by
  have hknows := h.knows hn
  cases hwakes with
  | stay hk => exact h.bystand hn (.refl w)
  | @call t _ hfirst =>
      -- As long as it is nobody else's turn, the extension is at rest.
      have hnobody : ∀ e ∈ l, e.2.isInTurn = false := fun e he => Bool.eq_false_iff.mpr fun hk => by
        obtain ⟨m, hm⟩ := List.mem_iff_getElem?.mp he
        obtain rfl := h.eq_of_first hn rfl hfirst hm hk
        rw [hn, Option.some.injEq] at hm
        rw [← hm] at hk
        cases hk
      have hrests := h.rests hnobody
      exact h.stay hn (.refl w) h.loaded rfl rfl (fun m c' k'' hm _ => h.knows hm)
        ⟨h.loaded, fun _ => hfirst, hrests⟩ fun hnot => absurd hnot (by simp [Place.isInTurn])
  | needless hactive =>
      exact h.act hn rfl rfl rfl (.refl w) h.loaded rfl ⟨hactive, hknows.holds⟩
  | fail hc hactive hnot =>
      exact h.act hn rfl rfl rfl (.refl w) h.loaded rfl
        ⟨hactive, hc, fun hr => hnot (hreliable hr), hknows.holds⟩
  | setOut hactive =>
      exact h.act hn rfl rfl rfl (.refl w) h.loaded rfl
        ⟨hactive, (h.loaded.rests_iff hactive).mp hknows.holds⟩
  | back =>
      exact h.stay hn (.refl w) h.loaded rfl rfl (fun m c' k'' hm _ => h.knows hm)
        (.of_not_inTurn h.loaded rfl) fun _ hothers => h.rests_of_others hn rfl hothers

theorem Sound.start (h : L.Sound w l) (c : HostCall) : L.Sound w (l ++ [(c, .away)]) := by
  have hentry {m : Nat} {c' : HostCall} {k : Place} (hm : (l ++ [(c, .away)])[m]? = some (c', k)) :
      l[m]? = some (c', k) ∨ k = .away := by
    rw [List.getElem?_append] at hm
    split at hm
    · exact .inl hm
    · refine .inr ?_
      have hmem := List.mem_of_getElem? hm
      exact (Prod.mk.inj (List.mem_singleton.mp hmem)).2
  refine ⟨h.loaded, fun t => ?_, ?_, h.nodup, h.issued, ?_, fun hrests => ?_⟩
  · rw [h.inLine t]
    constructor
    · rintro ⟨m, c', k, hm, ht⟩
      have hlt : m < l.length := (List.getElem?_eq_some_iff.mp hm).1
      exact ⟨m, c', k, (List.getElem?_append_left hlt).trans hm, ht⟩
    · rintro ⟨m, c', k, hm, ht⟩
      rcases hentry hm with hm | rfl
      · exact ⟨m, c', k, hm, ht⟩
      · cases ht
  · intro m m' t c₁ c₂ k₁ k₂ h₁ h₂ ht₁ ht₂
    rcases hentry h₁ with h₁ | rfl
    · rcases hentry h₂ with h₂ | rfl
      · exact h.unique h₁ h₂ ht₁ ht₂
      · cases ht₂
    · cases ht₁
  · intro m c' k hm
    rcases hentry hm with hm | rfl
    · exact h.knows hm
    · exact .of_not_inTurn h.loaded rfl
  · exact h.rests fun e he => hrests e (List.mem_append_left _ he)

/-- Nobody is under way, and nobody is in line. -/
theorem sound_nil (hidle : w.host.Idle L.code) {e : Extension} (hfind : w.host.find? L.id = some e)
    (hqueue : e.queue = L.queue) (hat : L.At (restPhase e) w) : L.Sound w [] := by
  have hroom : L.queue < w.host.queues.length := hqueue ▸ hidle.room L.id e hfind
  have hempty : L.line w = [] := by
    simp only [line, List.getElem?_eq_getElem hroom, Option.getD_some]
    exact hidle.queues _ (List.getElem_mem hroom)
  have hrests : L.Rests w := fun e' he' => by
    rw [hfind, Option.some.injEq] at he'
    exact he' ▸ hat
  refine ⟨⟨⟨e, hfind, hqueue, hidle.modules L.id e hfind⟩, fun other e' he' hsame => ?_, hroom⟩,
    fun t => ?_, fun hn => (nomatch hn), ?_, fun t ht => ?_, fun hn => (nomatch hn),
    fun _ => hrests⟩
  · exact hidle.owners other L.id e' e he' hfind (hsame.trans hqueue.symm)
  · simp [hempty]
  · rw [hempty]
    exact List.nodup_nil
  · rw [hempty] at ht
    cases ht

/-- Whoever goes by the protocol keeps what holds of all. -/
theorem keeps_protocol (L : Subject χ) :
    L.protocol.Keeps (fun w => L.IsReliable → w.CanMake L.id) L.Sound where
  knows h hmem := by
    obtain ⟨n, hn⟩ := List.mem_iff_getElem?.mp hmem
    exact h.knows hn
  may h hn hmay := h.may hn hmay
  wakes h hreliable hn hwakes := h.wakes hreliable hn hwakes
  start h hk := by
    rcases hk with rfl | rfl <;> exact h.start _

end Subject

end EditorHost
