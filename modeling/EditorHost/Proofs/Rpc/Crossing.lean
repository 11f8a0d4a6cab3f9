import EditorHost.Proofs.Interference
import EditorHost.Proofs.Rpc.ClientCalls
import EditorHost.Proofs.Rpc.Notes
import EditorHost.Proofs.Table

/-!
# A document that is closed while it is opened or changed

A call that closes a document looks at it, tells its server, and only then forgets it.  A call that
opens or changes the document gives it its text, and then tells servers.  Each lets go between its
parts, so the parts of one call may come between those of the other.

What comes of both calls is what comes of them one after the other, in one of the two orders, or the
calls cross: the document is not tracked in the end, but the message on its closing stands in front
of what the other call tells last, or is for the server of the language that the document had
(`closing_outcomes`).  All of this happens.  A call that crosses the closing tells a server of a
document that is not tracked any more (`closing_crosses`).

## Contents

* `Remark` is what a server is told about the document; `Client.sayAll` tells several.
* `Revision` is a call that opens or changes the document, with what it does to a tracked one.
* `Part` says how far a call has come, and `Crossing` what the client is then (`closing_revising`).
* `ComeTo` says what the calls can come to by some turns.
-/

namespace EditorHost.Rpc

open Interleaving (Move Pool Staged Staging System)

/-- What a server is told about a document. -/
inductive Remark where
  | opened (d : Synced)
  | changed (d : Synced)
  | closed (language : String)
  deriving DecidableEq, Repr

/-- A call that gives a document a text. -/
inductive Revision where
  | opening (language text : String)
  | changing (text : String)
  deriving DecidableEq, Repr

/-! ## What is told, and what is tracked -/

namespace Client

variable (uri : String)

/-- Tells the server that a remark is for, if it is ready. -/
def say (c : Client) : Remark → Client
  | .opened d => c.tellOpened uri d
  | .changed d => c.tellChanged uri d
  | .closed language => c.tellClosed uri language

def sayAll (c : Client) (remarks : List Remark) : Client := remarks.foldl (say uri) c

/-- The client with other documents. -/
def withDocuments (c : Client) (documents : Table Synced) : Client := { c with documents }

variable {uri} {c : Client}

theorem notify_withDocuments (documents : Table Synced) (id : Option ServerId) (method : String)
    (params : Json) :
    (c.withDocuments documents).notify id method params =
      (c.notify id method params).withDocuments documents := by
  cases id <;> rfl

theorem say_withDocuments (documents : Table Synced) (r : Remark) :
    (c.withDocuments documents).say uri r = (c.say uri r).withDocuments documents := by
  cases r <;> exact notify_withDocuments documents _ _ _

theorem sayAll_withDocuments (documents : Table Synced) (remarks : List Remark) :
    (c.withDocuments documents).sayAll uri remarks =
      (c.sayAll uri remarks).withDocuments documents := by
  induction remarks generalizing c with
  | nil => rfl
  | cons r remarks ih =>
      rw [sayAll, List.foldl_cons, say_withDocuments]
      exact ih

theorem documents_sayAll (remarks : List Remark) :
    (c.sayAll uri remarks).documents = c.documents := by
  have hsame : c.withDocuments c.documents = c := rfl
  rw [← hsame, sayAll_withDocuments]
  rfl

theorem sayAll_concat (remarks : List Remark) (r : Remark) :
    c.sayAll uri (remarks ++ [r]) = (c.sayAll uri remarks).say uri r :=
  List.foldl_append

theorem closed_of_some {d : Synced} (h : c.documents.find? uri = some d) :
    c.closed uri = (c.say uri (.closed d.language)).withDocuments (c.documents.erase uri) := by
  have hsame : (c.say uri (.closed d.language)).documents = c.documents :=
    documents_sayAll [.closed d.language]
  rw [closed, h, ← hsame]
  rfl

end Client

namespace Revision

/-- A tracked document behind the call. -/
def revised : Revision → Synced → Synced
  | opening language text, d => ⟨language, Document.nextVersion d.version, text⟩
  | changing text, d => { d with version := Document.nextVersion d.version, text }

/-- What is told about a tracked document. -/
def remarks (r : Revision) (d : Synced) : List Remark :=
  if (r.revised d).language = d.language then [.changed (r.revised d)]
  else [.closed d.language, .opened (r.revised d)]

/-- A document that was not tracked, behind the call; `none` when it still is not. -/
def first? : Revision → Option Synced
  | opening language text => some ⟨language, 1, text⟩
  | changing _ => none

/-- The client when the document has its text, and what is still to be told. -/
def begin (uri : String) (r : Revision) (c : Client) : Client × List Remark :=
  match c.documents.find? uri, r.first? with
  | some d, _ => (c.withDocuments (c.documents.insert uri (r.revised d)), r.remarks d)
  | none, some d => (c.withDocuments (c.documents.insert uri d), [.opened d])
  | none, none => (c, [])

/-- The client after the call, when nothing comes between its parts. -/
def apply (uri : String) : Revision → Client → Client
  | opening language text, c => c.opened uri language text
  | changing text, c => c.changed uri text

def flow (uri : String) : Revision → Flow Client Unit
  | opening language text => Client.didOpen uri language text
  | changing text => Client.didChange uri text

variable {uri : String} {r : Revision} {c : Client} {d : Synced}

theorem begin_of_some (h : c.documents.find? uri = some d) :
    r.begin uri c = (c.withDocuments (c.documents.insert uri (r.revised d)), r.remarks d) := by
  rw [begin, h]

theorem apply_eq (uri : String) (r : Revision) (c : Client) :
    r.apply uri c = (r.begin uri c).1.sayAll uri (r.begin uri c).2 := by
  cases r with
  | opening language text =>
      rw [apply, Client.opened, Client.track, begin]
      cases c.documents.find? uri with
      | none => rfl
      | some d =>
          by_cases hsame : d.language = language
          · simp only [remarks, revised, hsame, if_true]
            rfl
          · simp only [remarks, revised, hsame, Ne.symm hsame, if_false]
            rfl
  | changing text =>
      rw [apply, Client.changed, Client.retext, begin]
      cases c.documents.find? uri with
      | none => rfl
      | some d =>
          simp only [remarks, revised, if_true]
          rfl

end Revision

/-! ## The two calls -/

/-- The calls on one document. -/
inductive DocumentCall where
  | close
  | revise (r : Revision)

/-- Calls on a document as the program has them, with nothing else. -/
def documentCalls (uri : String) : System DocumentCall Empty Client Unit where
  flow
    | .close => Client.didClose uri
    | .revise r => r.flow uri
  outside event := event.elim

/-- How far a call has come. -/
inductive Part where
  | closing
  /-- The document has been looked at, and the server of its language is told next. -/
  | looked (language : String)
  /-- The server has been told; the document is forgotten next. -/
  | parted
  | closed
  | revising (r : Revision)
  /-- The document has its text, and some remarks are still to be made. -/
  | owing (r : Revision) (rest : List Remark)

namespace Part

variable (uri : String)

def call : Part → DocumentCall
  | closing | looked _ | parted | closed => .close
  | revising r | owing r _ => .revise r

/-- Tells several servers, one after another. -/
def utter : List Remark → Flow Client Unit
  | [] => .done ()
  | r :: rest => Flow.pause.bind fun _ =>
    (Flow.sync fun c => ((), c.say uri r)).bind fun _ => utter rest

/-- Forgets a document. -/
def forget : Flow Client Unit := Flow.pause.bind fun _ =>
  Flow.sync fun c => ((), { c with documents := c.documents.erase uri })

/-- What is still to do. -/
def rest : Part → Flow Client Unit
  | closing => Client.didClose uri
  | looked language => Flow.pause.bind fun _ =>
    (Flow.sync fun c => ((), c.tellClosed uri language)).bind fun _ => forget uri
  | parted => forget uri
  | closed => .done ()
  | revising r => r.flow uri
  | owing _ remarks => utter uri remarks

/-- One turn of a call. -/
def turn (c : Client) : Part → Option (Client × Part)
  | closing =>
    match c.documents.find? uri with
    | some d => some (c, .looked d.language)
    | none => some (c, .closed)
  | looked language => some (c.say uri (.closed language), .parted)
  | parted => some (c.withDocuments (c.documents.erase uri), .closed)
  | closed => none
  | revising r => some ((r.begin uri c).1, .owing r (r.begin uri c).2)
  | owing _ [] => none
  | owing r (remark :: rest) => some (c.say uri remark, .owing r rest)

variable {uri}

/-- The first turn of a call that opens or changes the document. -/
theorem stretch_revising (r : Revision) (c : Client) :
    ((r.flow uri).wake c).stretch c =
      ⟨(r.begin uri c).1, utter uri (r.begin uri c).2, []⟩ := by
  cases r with
  | opening language text =>
      simp only [Revision.flow, Client.didOpen, Client.track, Revision.begin, Flow.bind_eq,
        Flow.wake_pause_bind, Flow.stretch_sync_bind]
      cases c.documents.find? uri with
      | none => rfl
      | some d =>
          by_cases hsame : d.language = language
          · simp only [Revision.remarks, Revision.revised, hsame, if_true]
            rfl
          · simp only [Revision.remarks, Revision.revised, hsame, Ne.symm hsame, if_false]
            rfl
  | changing text =>
      simp only [Revision.flow, Client.didChange, Client.retext, Revision.begin, Flow.bind_eq,
        Flow.wake_pause_bind, Flow.stretch_sync_bind]
      cases c.documents.find? uri with
      | none => rfl
      | some d =>
          simp only [Revision.remarks, Revision.revised, if_true]
          rfl

end Part

/-- Calls on a document as parts. -/
def documentParts (uri : String) : Staging (documentCalls uri) Part where
  task k := ⟨k.call, none, k.rest uri⟩
  first _
    | .close => .closing
    | .revise r => .revising r
  turn _ c k := k.turn uri c
  task_first _ call := by
    cases call with
    | close => rfl
    | revise r => cases r <;> rfl
  isReady_task _ c k := by
    cases k with
    | closing =>
        simp only [Part.turn]
        split <;> rfl
    | looked language => rfl
    | parted => rfl
    | closed => rfl
    | revising r => cases r <;> rfl
    | owing r remarks => cases remarks <;> rfl
  stretch_task _ c k c' k' h := by
    cases k with
    | closing =>
        simp only [Part.turn] at h
        simp only [Part.rest, Client.didClose, Flow.bind_eq, Flow.wake_pause_bind,
          Flow.stretch_read_bind]
        cases hfind : c.documents.find? uri with
        | none =>
            rw [hfind] at h
            obtain ⟨rfl, rfl⟩ := Prod.mk.inj (Option.some.inj h)
            exact ⟨rfl, rfl⟩
        | some d =>
            rw [hfind] at h
            obtain ⟨rfl, rfl⟩ := Prod.mk.inj (Option.some.inj h)
            exact ⟨rfl, rfl⟩
    | looked language =>
        obtain ⟨rfl, rfl⟩ := Prod.mk.inj (Option.some.inj h)
        exact ⟨rfl, rfl⟩
    | parted =>
        obtain ⟨rfl, rfl⟩ := Prod.mk.inj (Option.some.inj h)
        exact ⟨rfl, rfl⟩
    | closed => cases h
    | revising r =>
        obtain ⟨rfl, rfl⟩ := Prod.mk.inj (Option.some.inj h)
        refine ⟨Part.stretch_revising r c, ?_⟩
        cases r.begin uri c with
        | mk c' remarks => cases remarks <;> rfl
    | owing r remarks =>
        cases remarks with
        | nil => cases h
        | cons remark remarks =>
            obtain ⟨rfl, rfl⟩ := Prod.mk.inj (Option.some.inj h)
            cases remarks <;> exact ⟨rfl, rfl⟩

/-! ## What the client is in between -/

/-- How far the two calls have come, and what the client is then.  `c` is the client at the
beginning, and `d` the document that is tracked there. -/
inductive Crossing (uri : String) (c : Client) (d : Synced) (r : Revision) :
    Part → Part → Client → Prop
  /-- The document is as it was. -/
  | early {k : Part} (hk : k = .closing ∨ k = .looked d.language) :
      Crossing uri c d r k (.revising r) c
  | earlyParted : Crossing uri c d r .parted (.revising r) (c.say uri (.closed d.language))
  | earlyClosed : Crossing uri c d r .closed (.revising r) (c.closed uri)
  /-- The other call has begun, and nobody has been told of the closing. -/
  | begun {k : Part} {made rest : List Remark} (hremarks : made ++ rest = r.remarks d)
      (hk : k = .closing ∨ ∃ language,
        k = .looked language ∧ (language = d.language ∨ language = (r.revised d).language)) :
      Crossing uri c d r k (.owing r rest)
        ((c.sayAll uri made).withDocuments (c.documents.insert uri (r.revised d)))
  /-- The server has been told of the closing in between. -/
  | parted {before after rest : List Remark} {language : String}
      (hremarks : before ++ (after ++ rest) = r.remarks d)
      (hlanguage : language = d.language ∨ language = (r.revised d).language) :
      Crossing uri c d r .parted (.owing r rest)
        ((c.sayAll uri (before ++ .closed language :: after)).withDocuments
          (c.documents.insert uri (r.revised d)))
  | closed {before after rest : List Remark} {language : String}
      (hremarks : before ++ (after ++ rest) = r.remarks d)
      (hlanguage : language = d.language ∨ language = (r.revised d).language) :
      Crossing uri c d r .closed (.owing r rest)
        ((c.sayAll uri (before ++ .closed language :: after)).withDocuments
          (c.documents.erase uri))
  /-- The document had been forgotten when the other call began. -/
  | late {made rest : List Remark}
      (hremarks : made ++ rest = (r.begin uri (c.closed uri)).2) :
      Crossing uri c d r .closed (.owing r rest)
        ((r.begin uri (c.closed uri)).1.sayAll uri made)

namespace Crossing

variable {uri : String} {c c₁ c₂ : Client} {d : Synced} {r : Revision} {k k₁ k₂ : Part}

/-- The closing call takes a turn. -/
theorem turnClosing (h : Crossing uri c d r k₁ k c₁) (htracked : c.documents.find? uri = some d)
    (hturn : k₁.turn uri c₁ = some (c₂, k₂)) : Crossing uri c d r k₂ k c₂ := by
  cases h with
  | early hk =>
      rcases hk with rfl | rfl
      · rw [Part.turn, htracked] at hturn
        obtain ⟨rfl, rfl⟩ := Prod.mk.inj (Option.some.inj hturn)
        exact .early (.inr rfl)
      · obtain ⟨rfl, rfl⟩ := Prod.mk.inj (Option.some.inj hturn)
        exact .earlyParted
  | earlyParted =>
      have hsame : (c.say uri (.closed d.language)).documents = c.documents :=
        Client.documents_sayAll [.closed d.language]
      rw [Part.turn, hsame, ← Client.closed_of_some htracked] at hturn
      obtain ⟨rfl, rfl⟩ := Prod.mk.inj (Option.some.inj hturn)
      exact .earlyClosed
  | begun hremarks hk =>
      rcases hk with rfl | ⟨language, rfl, hlanguage⟩
      · rw [Part.turn, Client.withDocuments, Table.find?_insert_self] at hturn
        obtain ⟨rfl, rfl⟩ := Prod.mk.inj (Option.some.inj hturn)
        exact .begun hremarks (.inr ⟨_, rfl, .inr rfl⟩)
      · rw [Part.turn, Client.say_withDocuments, ← Client.sayAll_concat] at hturn
        obtain ⟨rfl, rfl⟩ := Prod.mk.inj (Option.some.inj hturn)
        exact .parted (by simpa using hremarks) hlanguage
  | parted hremarks hlanguage =>
      rw [Part.turn] at hturn
      obtain ⟨rfl, rfl⟩ := Prod.mk.inj (Option.some.inj hturn)
      have hforgotten := Table.erase_insert c.documents uri (r.revised d)
      exact hforgotten ▸ .closed hremarks hlanguage
  | earlyClosed => cases hturn
  | closed hremarks hlanguage => cases hturn
  | late hremarks => cases hturn

/-- The call that opens or changes the document takes a turn. -/
theorem turnRevising (h : Crossing uri c d r k k₁ c₁) (htracked : c.documents.find? uri = some d)
    (hturn : k₁.turn uri c₁ = some (c₂, k₂)) : Crossing uri c d r k k₂ c₂ := by
  cases h with
  | early hk =>
      rw [Part.turn, Revision.begin_of_some htracked] at hturn
      obtain ⟨rfl, rfl⟩ := Prod.mk.inj (Option.some.inj hturn)
      refine .begun (List.nil_append _) (hk.imp_right fun hk => ⟨_, hk, .inl rfl⟩)
  | earlyParted =>
      have hsame : (c.say uri (.closed d.language)).documents = c.documents :=
        Client.documents_sayAll [.closed d.language]
      rw [Part.turn, Revision.begin_of_some (hsame ▸ htracked), hsame] at hturn
      obtain ⟨rfl, rfl⟩ := Prod.mk.inj (Option.some.inj hturn)
      exact @parted uri c d r [] [] (r.remarks d) d.language rfl (.inl rfl)
  | earlyClosed =>
      obtain ⟨rfl, rfl⟩ := Prod.mk.inj (Option.some.inj hturn)
      exact .late (List.nil_append _)
  | @begun _ made rest hremarks hk =>
      cases rest with
      | nil => cases hturn
      | cons remark rest =>
          rw [Part.turn, Client.say_withDocuments, ← Client.sayAll_concat] at hturn
          obtain ⟨rfl, rfl⟩ := Prod.mk.inj (Option.some.inj hturn)
          exact .begun (by simpa using hremarks) hk
  | @parted before after rest language hremarks hlanguage =>
      cases rest with
      | nil => cases hturn
      | cons remark rest =>
          rw [Part.turn, Client.say_withDocuments, ← Client.sayAll_concat, List.append_assoc,
            List.cons_append] at hturn
          obtain ⟨rfl, rfl⟩ := Prod.mk.inj (Option.some.inj hturn)
          exact .parted (by simpa using hremarks) hlanguage
  | @closed before after rest language hremarks hlanguage =>
      cases rest with
      | nil => cases hturn
      | cons remark rest =>
          rw [Part.turn, Client.say_withDocuments, ← Client.sayAll_concat, List.append_assoc,
            List.cons_append] at hturn
          obtain ⟨rfl, rfl⟩ := Prod.mk.inj (Option.some.inj hturn)
          exact .closed (by simpa using hremarks) hlanguage
  | @late made rest hremarks =>
      cases rest with
      | nil => cases hturn
      | cons remark rest =>
          rw [Part.turn, ← Client.sayAll_concat] at hturn
          obtain ⟨rfl, rfl⟩ := Prod.mk.inj (Option.some.inj hturn)
          exact .late (by simpa using hremarks)

/-- Any turn of the two calls. -/
theorem takeTurn {l : Staged Client Part} (hstages : l.stages = [k₁, k₂])
    (h : Crossing uri c d r k₁ k₂ l.state) (htracked : c.documents.find? uri = some d) (n : Nat) :
    ∃ k₁' k₂', ((documentParts uri).takeTurn l n).stages = [k₁', k₂'] ∧
      Crossing uri c d r k₁' k₂' ((documentParts uri).takeTurn l n).state := by
  have hidle {l' : Staged Client Part} (hl : l' = l) :
      ∃ k₁' k₂', l'.stages = [k₁', k₂'] ∧ Crossing uri c d r k₁' k₂' l'.state :=
    ⟨k₁, k₂, hl ▸ hstages, hl ▸ h⟩
  match n with
  | 0 =>
    have hfirst : l.stages[0]? = some k₁ := by rw [hstages]; rfl
    cases hturn : k₁.turn uri l.state with
    | none => exact hidle ((documentParts uri).takeTurn_of_none hfirst hturn)
    | some result =>
        obtain ⟨c', k'⟩ := result
        rw [(documentParts uri).takeTurn_of_some hfirst hturn, hstages]
        exact ⟨k', k₂, rfl, h.turnClosing htracked hturn⟩
  | 1 =>
    have hsecond : l.stages[1]? = some k₂ := by rw [hstages]; rfl
    cases hturn : k₂.turn uri l.state with
    | none => exact hidle ((documentParts uri).takeTurn_of_none hsecond hturn)
    | some result =>
        obtain ⟨c', k'⟩ := result
        rw [(documentParts uri).takeTurn_of_some hsecond hturn, hstages]
        exact ⟨k₁, k', rfl, h.turnRevising htracked hturn⟩
  | n + 2 =>
    refine hidle ?_
    rw [Staging.takeTurn, hstages]
    rfl

/-- Any turns of the two calls. -/
theorem run {l : Staged Client Part} (hstages : l.stages = [k₁, k₂])
    (h : Crossing uri c d r k₁ k₂ l.state) (htracked : c.documents.find? uri = some d)
    (turns : List Nat) :
    ∃ k₁' k₂', ((documentParts uri).run l (turns.map .turn)).stages = [k₁', k₂'] ∧
      Crossing uri c d r k₁' k₂' ((documentParts uri).run l (turns.map .turn)).state := by
  induction turns generalizing l k₁ k₂ with
  | nil => exact ⟨k₁, k₂, hstages, h⟩
  | cons n turns ih =>
      obtain ⟨k₁', k₂', hstages', h'⟩ := takeTurn hstages h htracked n
      exact ih hstages' h'

end Crossing

/-! ## What comes of both calls -/

/-- A document is closed while another call opens or changes it, with any turns of the two. -/
def bothCalls (uri : String) (c : Client) (r : Revision) (turns : List Nat) :
    Pool DocumentCall Client Unit :=
  (documentCalls uri).run { state := c } (.start .close :: .start (.revise r) :: turns.map .turn)

/-- The two calls are described by their parts. -/
theorem bothCalls_eq (uri : String) (c : Client) (r : Revision) (turns : List Nat) :
    bothCalls uri c r turns = (documentParts uri).pool
      ((documentParts uri).run ⟨0, c, [.closing, .revising r]⟩ (turns.map .turn)) :=
  (documentParts uri).run_pool { state := c }
    (.start .close :: .start (.revise r) :: turns.map .turn)

theorem Part.not_isDone_revising {uri : String} (r : Revision) :
    ¬ ((r.flow uri).isDone = true) := by
  cases r <;> exact Bool.false_ne_true

theorem Part.utter_eq_done {uri : String} {remarks : List Remark}
    (h : (utter uri remarks).isDone = true) : remarks = [] := by
  cases remarks with
  | nil => rfl
  | cons r rest => cases h

/-- A tracked document is closed while another call opens or changes it.  When both calls have
returned, either the document had been forgotten before the other call began, or it is not tracked,
and the server of the language that it had or has got has been told of the closing somewhere among
what the other call tells. -/
theorem closing_revising {uri : String} {c : Client} {d : Synced} {r : Revision} {turns : List Nat}
    (htracked : c.documents.find? uri = some d)
    (hdone : ∀ t ∈ (bothCalls uri c r turns).tasks, t.rest.isDone = true) :
    (bothCalls uri c r turns).state = r.apply uri (c.closed uri) ∨
      ∃ before after language, before ++ after = r.remarks d ∧
        (language = d.language ∨ language = (r.revised d).language) ∧
        (bothCalls uri c r turns).state =
          (c.sayAll uri (before ++ .closed language :: after)).withDocuments
            (c.documents.erase uri) := by
  have hearly : Crossing uri c d r .closing (.revising r) c := .early (.inl rfl)
  obtain ⟨k₁, k₂, hstages, h⟩ :=
    Crossing.run (l := ⟨0, c, [.closing, .revising r]⟩) rfl hearly htracked turns
  rw [bothCalls_eq] at hdone ⊢
  simp only [Staging.pool, hstages, List.map_cons, List.map_nil, List.forall_mem_cons] at hdone ⊢
  obtain ⟨hclosed, hrevised, -⟩ := hdone
  generalize ((documentParts uri).run ⟨0, c, [.closing, .revising r]⟩ (turns.map .turn)).state =
    final at h ⊢
  cases h with
  | early hk => exact absurd hrevised (Part.not_isDone_revising r)
  | earlyParted => cases hclosed
  | earlyClosed => exact absurd hrevised (Part.not_isDone_revising r)
  | begun hremarks hk => rcases hk with rfl | ⟨language, rfl, -⟩ <;> cases hclosed
  | parted hremarks hlanguage => cases hclosed
  | @closed before after rest language hremarks hlanguage =>
      obtain rfl := Part.utter_eq_done hrevised
      rw [List.append_nil] at hremarks
      exact .inr ⟨before, after, language, hremarks, hlanguage, rfl⟩
  | @late made rest hremarks =>
      obtain rfl := Part.utter_eq_done hrevised
      rw [List.append_nil] at hremarks
      exact .inl (hremarks ▸ (Revision.apply_eq uri r (c.closed uri)).symm)

/-- When the other call goes first, the message on the closing comes last, and it is for the server
of the language that the document has got. -/
theorem closed_revised {uri : String} {c : Client} {d : Synced} (r : Revision)
    (htracked : c.documents.find? uri = some d) :
    (r.apply uri c).closed uri =
      (c.sayAll uri (r.remarks d ++ [.closed (r.revised d).language])).withDocuments
        (c.documents.erase uri) := by
  have hdocuments : (r.apply uri c).documents = c.documents.insert uri (r.revised d) := by
    rw [Revision.apply_eq, Revision.begin_of_some htracked, Client.sayAll_withDocuments]
    rfl
  have hfound : (r.apply uri c).documents.find? uri = some (r.revised d) := by
    rw [hdocuments, Table.find?_insert_self]
  rw [Client.closed_of_some hfound, hdocuments, Table.erase_insert, Revision.apply_eq,
    Revision.begin_of_some htracked, Client.sayAll_withDocuments, Client.say_withDocuments,
    ← Client.sayAll_concat]
  rfl

/-! ## All that can come of both calls -/

/-- By some turns the two calls come to these parts, and the client to this state. -/
def ComeTo (uri : String) (c : Client) (r : Revision) (k₁ k₂ : Part) (c' : Client) : Prop :=
  ∃ turns : List Nat,
    (documentParts uri).run ⟨0, c, [.closing, .revising r]⟩ (turns.map .turn) = ⟨0, c', [k₁, k₂]⟩

namespace ComeTo

variable {uri : String} {c c' c'' : Client} {d : Synced} {r : Revision} {k₁ k₂ k : Part}

theorem begin (uri : String) (c : Client) (r : Revision) :
    ComeTo uri c r .closing (.revising r) c := ⟨[], rfl⟩

theorem first (h : ComeTo uri c r k₁ k₂ c') (hturn : k₁.turn uri c' = some (c'', k)) :
    ComeTo uri c r k k₂ c'' := by
  obtain ⟨turns, hturns⟩ := h
  refine ⟨turns ++ [0], ?_⟩
  rw [List.map_append, Staging.run_append, hturns]
  exact (documentParts uri).takeTurn_of_some (l := ⟨0, c', [k₁, k₂]⟩) (n := 0) rfl hturn

theorem second (h : ComeTo uri c r k₁ k₂ c') (hturn : k₂.turn uri c' = some (c'', k)) :
    ComeTo uri c r k₁ k c'' := by
  obtain ⟨turns, hturns⟩ := h
  refine ⟨turns ++ [1], ?_⟩
  rw [List.map_append, Staging.run_append, hturns]
  exact (documentParts uri).takeTurn_of_some (l := ⟨0, c', [k₁, k₂]⟩) (n := 1) rfl hturn

/-- Remarks are made, one after another. -/
theorem owing {made rest : List Remark} (h : ComeTo uri c r k₁ (.owing r (made ++ rest)) c') :
    ComeTo uri c r k₁ (.owing r rest) (c'.sayAll uri made) := by
  induction made generalizing c' with
  | nil => exact h
  | cons remark made ih => exact ih (h.second rfl)

/-- The other call begins while the document is tracked. -/
theorem revising (h : ComeTo uri c r k₁ (.revising r) c)
    (htracked : c.documents.find? uri = some d) : ComeTo uri c r k₁ (.owing r (r.remarks d))
      (c.withDocuments (c.documents.insert uri (r.revised d))) := by
  refine h.second ?_
  rw [Part.turn, Revision.begin_of_some htracked]

/-- The closing call looks at a document that is tracked. -/
theorem looking (h : ComeTo uri c r .closing k₂ c')
    (htracked : c'.documents.find? uri = some d) :
    ComeTo uri c r (.looked d.language) k₂ c' := by
  refine h.first ?_
  rw [Part.turn, htracked]

/-- The document is forgotten before the other call begins. -/
theorem late (htracked : c.documents.find? uri = some d) :
    ComeTo uri c r .closed (.owing r []) (r.apply uri (c.closed uri)) := by
  have hsame : (c.say uri (.closed d.language)).documents = c.documents :=
    Client.documents_sayAll [.closed d.language]
  have hclosed : ComeTo uri c r .closed (.revising r) (c.closed uri) := by
    rw [Client.closed_of_some htracked, ← hsame]
    exact (((begin uri c r).looking htracked).first rfl).first rfl
  have howing : ComeTo uri c r .closed (.owing r ((r.begin uri (c.closed uri)).2 ++ []))
      (r.begin uri (c.closed uri)).1 := by
    rw [List.append_nil]
    exact hclosed.second rfl
  rw [Revision.apply_eq]
  exact howing.owing

/-- The server is told of the closing anywhere among what the other call tells. -/
theorem crossed (htracked : c.documents.find? uri = some d) {before after : List Remark}
    {language : String} (hremarks : before ++ after = r.remarks d)
    (hlanguage : language = d.language ∨ language = (r.revised d).language) :
    ComeTo uri c r .closed (.owing r [])
      ((c.sayAll uri (before ++ .closed language :: after)).withDocuments
        (c.documents.erase uri)) := by
  have hlooked : ComeTo uri c r (.looked language) (.owing r (before ++ after))
      (c.withDocuments (c.documents.insert uri (r.revised d))) := by
    rw [hremarks]
    rcases hlanguage with rfl | rfl
    · exact ((begin uri c r).looking htracked).revising htracked
    · exact ((begin uri c r).revising htracked).looking (Table.find?_insert_self _ _ _)
  have hparted : ComeTo uri c r .parted (.owing r (after ++ []))
      (((c.withDocuments (c.documents.insert uri (r.revised d))).sayAll uri before).say uri
        (.closed language)) := by
    rw [List.append_nil]
    exact hlooked.owing.first rfl
  have hsaid : (((c.withDocuments (c.documents.insert uri (r.revised d))).sayAll uri before).say
      uri (.closed language)).sayAll uri after =
        (c.sayAll uri (before ++ .closed language :: after)).withDocuments
          (c.documents.insert uri (r.revised d)) := by
    rw [← Client.sayAll_withDocuments, Client.sayAll, Client.sayAll, Client.sayAll,
      List.foldl_append, List.foldl_cons]
  have hforgets := hparted.owing
  rw [hsaid] at hforgets
  have hforgotten := Table.erase_insert c.documents uri (r.revised d)
  exact hforgotten ▸ hforgets.first rfl

/-- Both calls have returned. -/
theorem returned (h : ComeTo uri c r .closed (.owing r []) c') : ∃ turns,
    (∀ t ∈ (bothCalls uri c r turns).tasks, t.rest.isDone = true) ∧
      (bothCalls uri c r turns).state = c' := by
  obtain ⟨turns, hturns⟩ := h
  refine ⟨turns, ?_⟩
  rw [bothCalls_eq, hturns]
  refine ⟨fun t ht => ?_, rfl⟩
  simp only [Staging.pool, List.map_cons, List.map_nil, List.mem_cons, List.not_mem_nil,
    or_false] at ht
  rcases ht with rfl | rfl <;> rfl

end ComeTo

/-- The message on the closing stands in front of what the other call tells last, or it is for the
server of the language that the document had. -/
def Crossed (uri : String) (c : Client) (d : Synced) (r : Revision) (c' : Client) : Prop :=
  ∃ before after language, before ++ after = r.remarks d ∧
    (language = d.language ∨ language = (r.revised d).language) ∧
    (after ≠ [] ∨ language ≠ (r.revised d).language) ∧
    c' = (c.sayAll uri (before ++ .closed language :: after)).withDocuments
      (c.documents.erase uri)

/-- A tracked document is closed while another call opens or changes it.  The two calls come to what
they come to one after the other, in either order, or they cross, and all of this can happen.  When
they cross, the client tracks what it does when the closing goes last. -/
theorem closing_outcomes {uri : String} {c : Client} {d : Synced} (r : Revision)
    (htracked : c.documents.find? uri = some d) :
    (∀ c', (∃ turns, (∀ t ∈ (bothCalls uri c r turns).tasks, t.rest.isDone = true) ∧
        (bothCalls uri c r turns).state = c') ↔
      c' = r.apply uri (c.closed uri) ∨ c' = (r.apply uri c).closed uri ∨ Crossed uri c d r c') ∧
    ∀ c', Crossed uri c d r c' → c'.documents = ((r.apply uri c).closed uri).documents := by
  refine ⟨fun c' => ⟨?_, ?_⟩, ?_⟩
  · rintro ⟨turns, hdone, rfl⟩
    rcases closing_revising htracked hdone with
      hlate | ⟨before, after, language, hremarks, hlanguage, hstate⟩
    · exact .inl hlate
    · by_cases hlast : after = [] ∧ language = (r.revised d).language
      · obtain ⟨rfl, rfl⟩ := hlast
        rw [List.append_nil] at hremarks
        rw [closed_revised r htracked, ← hremarks]
        exact .inr (.inl hstate)
      · exact .inr (.inr ⟨before, after, language, hremarks, hlanguage,
          Classical.not_and_iff_not_or_not.mp hlast, hstate⟩)
  · rintro (rfl | rfl | ⟨before, after, language, hremarks, hlanguage, -, rfl⟩)
    · exact (ComeTo.late htracked).returned
    · rw [closed_revised r htracked]
      exact (ComeTo.crossed htracked (List.append_nil _) (.inr rfl)).returned
    · exact (ComeTo.crossed htracked hremarks hlanguage).returned
  · rintro c' ⟨before, after, language, -, -, -, rfl⟩
    rw [closed_revised r htracked]
    rfl

/-- A client with a server for Python that is ready and knows of a document. -/
def pythonClient : Client :=
  let d : Synced := ⟨"python", 1, "x = 1"⟩
  let server : Server := {
    language := "python", command := { command := "pylsp" }, timeout := 30000, processId := 1
    state := .initialized
    queued := [notification "initialized" .empty,
      notification "textDocument/didOpen" (Client.didOpenParams "file:///a.py" d)] }
  { settings := ⟨30000, []⟩, connections := [⟨server, 0⟩], servers := [("python", 0)]
    documents := [("file:///a.py", d)] }

/-- The message on the closing can come before the one on the change. -/
theorem closing_outcomes_python :
    let d : Synced := ⟨"python", 1, "x = 1"⟩
    let r : Revision := .changing "x = 2"
    pythonClient.documents.find? "file:///a.py" = some d ∧
      ∃ turns, (∀ t ∈ (bothCalls "file:///a.py" pythonClient r turns).tasks,
          t.rest.isDone = true) ∧
        (bothCalls "file:///a.py" pythonClient r turns).state =
          (pythonClient.sayAll "file:///a.py"
            [.closed "python", .changed ⟨"python", 2, "x = 2"⟩]).withDocuments
              (pythonClient.documents.erase "file:///a.py") := by
  intro d r
  have htracked : pythonClient.documents.find? "file:///a.py" = some d := by decide
  refine ⟨htracked, ((closing_outcomes r htracked).1 _).mpr (.inr (.inr ?_))⟩
  exact ⟨[], [.changed ⟨"python", 2, "x = 2"⟩], "python", by decide, .inl rfl,
    .inl (List.cons_ne_nil _ _), rfl⟩

/-- What a client tracks, and what its server knows of documents. -/
def sides (c : Client) : Table Synced × Option Knowledge :=
  (c.documents, told ((Client.server 0).get c).queued)

/-- The closing is told before the change, and the document forgotten behind it: the server is told
of a change to a document that it has closed, which does not happen in either order. -/
theorem closing_crosses :
    let r : Revision := .changing "x = 2"
    let p := bothCalls "file:///a.py" pythonClient r [0, 0, 1, 0, 1]
    (p.tasks.all fun t => t.rest.isDone) = true ∧ sides p.state = ([], none) ∧
      sides (r.apply "file:///a.py" (pythonClient.closed "file:///a.py")) =
        ([], some (.documents [])) ∧
      sides ((r.apply "file:///a.py" pythonClient).closed "file:///a.py") =
        ([], some (.documents [])) := by
  decide +kernel

end EditorHost.Rpc
