import EditorHost.Proofs.Guarantee
import EditorHost.Proofs.Rpc.Conversation
import EditorHost.Proofs.Rpc.Messages
import EditorHost.Proofs.Rpc.Requests
import Mathlib.Data.List.Forall2

/-!
# Every request of a server is answered once

A server asks in the same stream in which it answers and notifies.  Whatever is called on the
connection at the same time, and however far its start has come, the answers on the wire are those
to the requests that have been heard, one to each, in the order of their arrival
(`conversation_answers`).

A message is heard as long as messages can be written: what comes later may still be received, but
the answer goes nowhere.

## Contents

* `isAsking` tells the messages to be answered, and `Answers` says what the answer to one is.
* `Server.receive_queued` is what one message does to the queue.
* `Aloof` is what calls guarantee: they queue requests and notifications only.
-/

namespace EditorHost.Rpc

open Interleaving (System Task Pool Move)

/-! ## Questions and answers -/

/-- Whether a message asks for an answer: its method is a text, and its identifier is not null. -/
def isAsking (m : Json) : Bool :=
  match m.get? "method", m.get? "id" with
  | some (.text _), some id => id ≠ .null
  | _, _ => false

/-- Whether a message on the wire is an answer, and neither a request nor a notification. -/
def isAnswer (m : Json) : Bool := m.get? "method" = none

/-- What a message asks the settings for; nothing where that is not a list. -/
def itemsOf (m : Json) : List Json :=
  match (m.get? "params").bind fun params => params.get? "items" with
  | some (.array items) => items
  | _ => []

/-- What the settings have for an item: what is found at the end of the route that it names, the
whole where it names none, and null where there is nothing. -/
structure IsEntry (command : ServerCommand) (item entry : Json) : Prop where
  unset : command.settings = none → entry = .null
  whole : ∀ settings, command.settings = some settings →
    (∀ name, item.get? "section" = some (.text name) → name = "") → entry = settings
  named : ∀ settings name, command.settings = some settings →
    item.get? "section" = some (.text name) → name ≠ "" →
    entry = (settings.at? (Json.route name)).getD .null

/-- What a message is answered with. -/
structure Answers (command : ServerCommand) (m answer : Json) : Prop where
  isAnswer : isAnswer answer = true
  version : answer.get? "jsonrpc" = some version
  id : answer.get? "id" = m.get? "id"
  configuration : m.get? "method" = some (.text "workspace/configuration") →
    ∃ entries, answer.get? "result" = some (.array entries) ∧
      List.Forall₂ (IsEntry command) (itemsOf m) entries
  other : m.get? "method" ≠ some (.text "workspace/configuration") →
    answer.get? "result" = some .null

/-! ## One message -/

theorem textField?_iff {m : Json} {key text : String} :
    m.textField? key = some text ↔ m.get? key = some (.text text) := by
  rw [Json.textField?, Option.bind_eq_some_iff]
  constructor
  · rintro ⟨v, hget, htext⟩
    cases v <;> simp_all [Json.asText?]
  · exact fun h => ⟨_, h, rfl⟩

theorem present?_iff {m : Json} {key : String} {v : Json} :
    present? m key = some v ↔ m.get? key = some v ∧ v ≠ .null := by
  rw [present?, Option.filter_eq_some_iff]
  cases v <;> simp [Json.isNull]

/-- A request is told by its method and its identifier. -/
theorem classify_eq_request_iff {m id params : Json} {method : String} :
    Incoming.classify m = .request id method params ↔
      m.textField? "method" = some method ∧ present? m "id" = some id ∧ paramsOf m = params := by
  unfold Incoming.classify
  cases m.textField? "method" with
  | none =>
      cases present? m "id" with
      | none => simp
      | some id => cases hid : numericId? id <;> simp [hid]
  | some method => cases present? m "id" <;> simp [and_left_comm]

theorem isAsking_iff {m : Json} : isAsking m = true ↔
    ∃ method id, m.textField? "method" = some method ∧ present? m "id" = some id := by
  simp only [textField?_iff, present?_iff]
  unfold isAsking
  split
  next method id hmethod hid => simp [hmethod, hid]
  next hnot =>
    simp only [Bool.false_eq_true, false_iff]
    rintro ⟨method, id, hmethod, hid, -⟩
    exact hnot method id hmethod hid

/-- The list that a message asks for is the one that is read from its parameters. -/
theorem items_paramsOf (m : Json) :
    (((paramsOf m).get? "items").bind Json.asArray?).getD [] = itemsOf m := by
  unfold itemsOf paramsOf
  cases m.get? "params" with
  | none => rfl
  | some params =>
      rw [Json.ofOption, Option.bind_some]
      cases params.get? "items" with
      | none => rfl
      | some items => cases items <;> rfl

theorem isEntry_configuration (command : ServerCommand) (item : Json) :
    IsEntry command item (command.configuration (item.textField? "section")) := by
  unfold ServerCommand.configuration
  constructor
  case unset =>
    intro hnone
    rw [hnone]
  case whole =>
    intro settings hsettings hname
    simp only [hsettings]
    cases hsection : item.textField? "section" with
    | none => rfl
    | some name => simp [hname name (textField?_iff.mp hsection)]
  case named =>
    intro settings name hsettings hsection hname
    simp only [hsettings, textField?_iff.mpr hsection, if_neg hname, Json.lookup?]
    cases settings.at? (Json.route name) <;> rfl

namespace Server

variable {s t : Server} {m answer : Json}

/-- What is queued for a message. -/
def answerTo? (s : Server) (m : Json) : Option Json :=
  match Incoming.classify m with
  | .request id method params => some (response id (s.resultFor method params))
  | _ => none

theorem answerTo?_congr (h : s.command = t.command) (m : Json) : s.answerTo? m = t.answerTo? m := by
  simp only [answerTo?, resultFor, h]

theorem isSome_answerTo? (s : Server) (m : Json) : (s.answerTo? m).isSome = isAsking m := by
  rw [Bool.eq_iff_iff, isAsking_iff]
  unfold answerTo?
  split
  next id method params hclassify =>
    obtain ⟨hmethod, hid, -⟩ := classify_eq_request_iff.mp hclassify
    exact iff_of_true rfl ⟨method, id, hmethod, hid⟩
  next hnot =>
    refine iff_of_false Bool.false_ne_true ?_
    rintro ⟨method, id, hmethod, hid⟩
    exact hnot id method _ (classify_eq_request_iff.mpr ⟨hmethod, hid, rfl⟩)

theorem answers_of_answerTo? (h : s.answerTo? m = some answer) : Answers s.command m answer := by
  unfold answerTo? at h
  split at h
  next id method params hclassify =>
    obtain ⟨hmethod, hid, rfl⟩ := classify_eq_request_iff.mp hclassify
    rw [textField?_iff] at hmethod
    obtain ⟨hid, -⟩ := present?_iff.mp hid
    cases h
    constructor
    case isAnswer => simp [Rpc.isAnswer, response, Json.get?_ofFields]
    case version => simp [response, Json.get?_ofFields]
    case id => simp [response, Json.get?_ofFields, hid]
    case configuration =>
      intro hconfiguration
      rw [hmethod, Option.some.injEq, Json.text.injEq] at hconfiguration
      refine ⟨_, by simp [response, Json.get?_ofFields, resultFor, hconfiguration]; rfl, ?_⟩
      rw [items_paramsOf, List.forall₂_map_right_iff]
      exact List.forall₂_same.mpr fun item _ => isEntry_configuration s.command item
    case other =>
      intro hother
      rw [hmethod, ne_eq, Option.some.injEq, Json.text.injEq] at hother
      simp [response, Json.get?_ofFields, resultFor, hother]
  · cases h

theorem receive_command (s : Server) (m : Json) : (s.receive m).2.command = s.command := by
  unfold receive respond
  split
  · split <;> rfl
  · simp
  · rfl
  · rfl

/-- A message makes the queue longer by its answer, as long as messages can be written. -/
theorem receive_queued (s : Server) (m : Json) : (s.receive m).2.queued =
    s.queued ++ if s.writable then (s.answerTo? m).toList else [] := by
  unfold receive answerTo?
  cases hclassify : Incoming.classify m with
  | request id method params => simp
  | response id result =>
      simp only [Option.toList_none, ite_self, List.append_nil]
      unfold respond
      split <;> rfl
  | notification method params => simp
  | invalid message => simp

end Server

/-! ## Calls -/

/-- The answers on the wire. -/
def Server.answersOut (s : Server) : List Json := s.queued.filter isAnswer

/-- What calls guarantee: they answer nothing. -/
structure Aloof (s t : Server) : Prop where
  command : t.command = s.command
  writable : t.writable = s.writable
  answersOut : t.answersOut = s.answersOut

namespace Aloof

variable {s t u : Server}

theorem refl (s : Server) : Aloof s s := ⟨rfl, rfl, rfl⟩

theorem trans (h : Aloof s t) (h' : Aloof t u) : Aloof s u :=
  ⟨h'.command.trans h.command, h'.writable.trans h.writable, h'.answersOut.trans h.answersOut⟩

/-- A message with a method is no answer. -/
theorem queue {message : Json} (h : isAnswer message = false) (s : Server) :
    Aloof s (s.queue message).2 := by
  refine ⟨by simp, by simp, ?_⟩
  rw [Server.queue_snd, Server.answersOut, Server.answersOut, List.filter_append]
  cases s.writable <;> simp [h]

theorem notify (s : Server) (method : String) (params : Json) :
    Aloof s (s.notify method params).2 :=
  queue (by simp [isAnswer, notification, Json.get?_ofFields]) s

theorem issue (s : Server) (method : String) (params : Json) :
    Aloof s (s.issue method params).2 := by
  have hrequest : isAnswer (request s.nextId method params) = false := by
    simp [isAnswer, request, Json.get?_ofFields]
  cases hclosed : s.closed with
  | true =>
      rw [Server.issue_of_closed hclosed]
      exact ⟨rfl, rfl, rfl⟩
  | false =>
      cases hwritable : s.writable with
      | true =>
          rw [Server.issue_of_open hclosed hwritable]
          exact ⟨rfl, rfl, by simp [Server.answersOut, Server.numbered, hrequest]⟩
      | false =>
          rw [Server.issue_of_unwritable hclosed hwritable]
          exact ⟨rfl, rfl, rfl⟩

theorem collect (s : Server) (id : RequestId) (method : String) :
    Aloof s (s.collect id method).2 := by
  unfold Server.collect
  split <;> exact ⟨rfl, rfl, rfl⟩

theorem welcome (s : Server) (result : Json) : Aloof s (s.welcome result) :=
  trans (t := { s with
    capabilities := some (.ofOption (result.get? "capabilities")), state := .initialized })
    ⟨rfl, rfl, rfl⟩ (notify _ _ _)

theorem request (method : String) (params : Json) :
    (Server.request method params).Within Aloof := by
  refine (Flow.within_sync fun s => issue s method params).bind fun result => ?_
  cases result with
  | error fault => trivial
  | ok id =>
      refine (Flow.within_read refl _).bind fun limit => ?_
      exact Flow.Within.bind (fun _ => trivial) fun _ =>
        Flow.within_sync fun s => collect s id method

theorem kill : Server.kill.Within Aloof :=
  Flow.Within.bind (fun _ => trivial) fun _ => Flow.within_sync fun _ => ⟨rfl, rfl, rfl⟩

theorem handshake (root : Option Path) : (Server.handshake root).Within Aloof := by
  refine (Flow.within_sync fun _ => ⟨rfl, rfl, rfl⟩).bind fun params => ?_
  refine (request "initialize" params).bind fun answer => ?_
  cases answer with
  | error fault => exact fun _ => ⟨⟨rfl, rfl, rfl⟩, trivial⟩
  | ok result => exact fun s => ⟨welcome s result, trivial⟩

theorem shutdown : Server.shutdown.Within Aloof := by
  refine (Flow.within_read refl _).bind fun state => ?_
  split
  · refine (request "shutdown" .null).bind fun _ => ?_
    exact (Flow.within_sync fun s => notify s "exit" .null).bind fun _ => kill
  · exact kill

/-- Whatever is called on a server, it answers nothing. -/
theorem call (c : Call) : c.flow.Within Aloof := by
  cases c with
  | ask inquiry =>
      cases inquiry with
      | request method params => exact (request method params).bind fun _ => trivial
      | greet root => exact (handshake root).bind fun _ => trivial
      | shutdown => exact shutdown.bind fun _ => trivial
  | kill => exact kill.bind fun _ => trivial

end Aloof

/-! ## Conversations -/

/-- The messages that arrive as long as messages can be written. -/
def heard : List (Move Call Incident) → List Json
  | [] => []
  | .outside (.message m) :: moves => m :: heard moves
  | .outside .unwritable :: _ => []
  | _ :: moves => heard moves

/-- What messages are answered with, each in its turn. -/
theorem forall₂_filterMap {α β : Type} {R : α → β → Prop} {answer : α → Option β} {asks : α → Bool}
    (hasks : ∀ m, (answer m).isSome = asks m) (hanswer : ∀ m a, answer m = some a → R m a)
    (messages : List α) :
    List.Forall₂ R (messages.filter asks) (messages.filterMap answer) := by
  induction messages with
  | nil => exact .nil
  | cons m messages ih =>
      cases h : answer m with
      | none =>
          have hnot : asks m = false := by rw [← hasks, h]; rfl
          simpa [hnot, h] using ih
      | some a =>
          have hasked : asks m = true := by rw [← hasks, h]; rfl
          simpa [hasked, h] using ⟨hanswer m a h, ih⟩

theorem answersOut_receive (s : Server) (m : Json) : (s.receive m).2.answersOut =
    s.answersOut ++ if s.writable then (s.answerTo? m).toList else [] := by
  rw [Server.answersOut, Server.receive_queued, List.filter_append, ← Server.answersOut]
  congr 1
  cases s.writable with
  | false => rfl
  | true =>
      cases h : s.answerTo? m with
      | none => rfl
      | some a => simp [(Server.answers_of_answerTo? h).isAnswer]

/-- What the server was started with stays. -/
theorem command_run (moves : List (Move Call Incident)) (p : Pool Call Server Reply)
    (h : ∀ t ∈ p.tasks, t.rest.Within Aloof) :
    (talk.run p moves).state.command = p.state.command := by
  let SameCommand (s t : Server) : Prop := t.command = s.command
  have haloof : ∀ s t, Aloof s t → SameCommand s t := fun _ _ => Aloof.command
  refine (System.within_run (S := talk) (R := SameCommand) (fun _ => rfl) ?_
    (fun call _ => (Aloof.call call).mono haloof) ?_ fun t ht => (h t ht).mono haloof).1
  · exact fun _ _ _ hst htu => Eq.trans htu hst
  intro incident _ s
  cases incident with
  | message m => exact s.receive_command m
  | finished => rfl
  | unwritable => rfl

/-- A message that can be answered is, before those that come behind it. -/
theorem answersOut_message (s : Server) (m : Json) (later : List Json) :
    (s.receive m).2.answersOut ++
        (if (s.receive m).2.writable then later.filterMap (s.receive m).2.answerTo? else []) =
      s.answersOut ++ if s.writable then (m :: later).filterMap s.answerTo? else [] := by
  have hsame : (s.receive m).2.answerTo? = s.answerTo? :=
    funext fun other => Server.answerTo?_congr (s.receive_command m) other
  rw [answersOut_receive, Server.receive_writable, hsame, List.append_assoc]
  cases s.writable with
  | false => rfl
  | true => cases h : s.answerTo? m <;> simp [h]

/-- Of a run of moves only the messages heard make answers, one for each that asks. -/
theorem answersOut_run (moves : List (Move Call Incident)) (p : Pool Call Server Reply)
    (h : ∀ t ∈ p.tasks, t.rest.Within Aloof) :
    (talk.run p moves).state.answersOut =
      p.state.answersOut ++
        if p.state.writable then (heard moves).filterMap p.state.answerTo? else [] := by
  induction moves generalizing p with
  | nil => cases hw : p.state.writable <;> simp [heard]
  | cons move moves ih =>
      rw [System.run_cons]
      by_cases hmove : ∃ incident, move = .outside incident
      · obtain ⟨incident, rfl⟩ := hmove
        refine (ih (talk.step p (.outside incident)) h).trans ?_
        cases incident with
        | message m => exact answersOut_message p.state m (heard moves)
        | finished => rfl
        | unwritable =>
            change p.state.answersOut ++ [] = p.state.answersOut ++ _
            cases p.state.writable <;> rfl
      · have hno : ∀ event, move = .outside event → ∀ s, Aloof s (talk.outside event s) :=
          fun event heq => absurd ⟨event, heq⟩ hmove
        obtain ⟨haloof, htasks⟩ := System.within_step Aloof.refl (fun _ _ _ => Aloof.trans)
          (talk.step_cases p move) (fun call _ => Aloof.call call) hno h
        have hheard : heard (move :: moves) = heard moves := by
          cases move with
          | outside incident => exact absurd ⟨incident, rfl⟩ hmove
          | _ => rfl
        rw [ih _ htasks, haloof.answersOut, haloof.writable, hheard]
        have hsame : (talk.step p move).state.answerTo? = p.state.answerTo? :=
          funext fun m => Server.answerTo?_congr haloof.command m
        rw [hsame]

/-- The answers on the wire are those to the requests heard so far, one to each, in the order of
their arrival; and the next message adds the answer to it, or nothing. -/
theorem conversation_answers (language : String) (command : ServerCommand)
    (timeout processId : Nat) (moves : List (Move Call Incident)) :
    let s := (conversation language command timeout processId moves).state
    List.Forall₂ (Answers command) ((heard moves).filter isAsking) (s.queued.filter isAnswer) ∧
      ∀ m, (isAsking m → s.writable → ∃ answer, Answers command m answer ∧
          (s.receive m).2.queued = s.queued ++ [answer]) ∧
        (¬ (isAsking m ∧ s.writable) → (s.receive m).2.queued = s.queued) := by
  intro s
  have hstart : ∀ t ∈ (connection language command timeout processId).tasks,
      t.rest.Within Aloof := fun t ht => by cases ht
  have hout : s.answersOut = (heard moves).filterMap
      (Server.connected language command timeout processId).answerTo? := answersOut_run moves _ hstart
  have hcommand : s.command = command := command_run moves _ hstart
  constructor
  · rw [← Server.answersOut, hout]
    exact forall₂_filterMap (Server.isSome_answerTo? _)
      (fun m a h => Server.answers_of_answerTo? (s := .connected language command timeout _) h) _
  · intro m
    rw [Server.receive_queued]
    cases hanswer : s.answerTo? m with
    | none =>
        have hnot : isAsking m = false := by rw [← s.isSome_answerTo?, hanswer]; rfl
        simp [hnot]
    | some a =>
        have hasked : isAsking m = true := by rw [← s.isSome_answerTo?, hanswer]; rfl
        have hanswers : Answers command m a := hcommand ▸ Server.answers_of_answerTo? hanswer
        constructor
        · intro _ hwritable
          exact ⟨a, hanswers, by rw [if_pos hwritable]; rfl⟩
        · intro hnot
          rw [if_neg fun hwritable => hnot ⟨hasked, hwritable⟩, List.append_nil]

end EditorHost.Rpc
