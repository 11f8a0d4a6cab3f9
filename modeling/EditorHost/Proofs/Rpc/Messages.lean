import EditorHost.Proofs.Table
import EditorHost.Rpc.Message

/-!
# The messages of this side

What the other side makes of the messages that are written to it: a request is read as a request
with its number, a notification as a notification, and an answer as no request.
-/

namespace EditorHost

namespace Json

/-- The field of an object that is given by its fields. -/
theorem get?_ofFields (fields : List (String × Json)) (key : String) :
    (ofFields fields).get? key =
      (fields.reverse.find? fun entry => entry.1 == key).map Prod.snd := by
  have h := Table.find?_foldl_insert fields [] key
  rw [Table.find?_nil, Option.or_none] at h
  exact h

end Json

namespace Rpc

theorem classify_request (id : Int) (method : String) (params : Json) :
    Incoming.classify (request id method params) = .request (.whole id) method params := by
  have hmethod : (request id method params).textField? "method" = some method := by
    simp [request, Json.textField?, Json.get?_ofFields, Json.asText?]
  have hid : present? (request id method params) "id" = some (.whole id) := by
    simp [request, present?, Json.get?_ofFields, Json.whole, Json.isNull, Option.filter]
  have hparams : paramsOf (request id method params) = params := by
    simp [request, paramsOf, Json.get?_ofFields, Json.ofOption]
  simp [Incoming.classify, hmethod, hid, hparams]

theorem classify_notification (method : String) (params : Json) :
    Incoming.classify (notification method params) = .notification method params := by
  simp [Incoming.classify, notification, Json.textField?, present?, paramsOf, Json.get?_ofFields,
    Json.asText?, Json.ofOption]

/-- The number of a request on the wire, `none` for every other message. -/
def wireId? (message : Json) : Option Nat :=
  match Incoming.classify message with
  | .request id _ _ => id.asNat?
  | _ => none

/-- The numbers of the requests among the messages on the wire. -/
def wireIds (messages : List Json) : List Nat := messages.filterMap wireId?

@[simp] theorem wireIds_append (first second : List Json) :
    wireIds (first ++ second) = wireIds first ++ wireIds second := List.filterMap_append

@[simp] theorem wireIds_nil : wireIds [] = [] := rfl

@[simp] theorem wireIds_request (id : Nat) (method : String) (params : Json) :
    wireIds [request id method params] = [id] := by
  simp [wireIds, wireId?, classify_request, Json.whole, Json.asNat?]

@[simp] theorem wireIds_notification (method : String) (params : Json) :
    wireIds [notification method params] = [] := by
  simp [wireIds, wireId?, classify_notification]

theorem wireId?_of_no_method {message : Json} (h : message.textField? "method" = none) :
    wireId? message = none := by
  unfold wireId? Incoming.classify
  rw [h]
  cases present? message "id" with
  | none => rfl
  | some id => cases hid : numericId? id <;> simp [hid]

@[simp] theorem wireIds_response (id result : Json) : wireIds [response id result] = [] := by
  have hmethod : (response id result).textField? "method" = none := by
    simp [response, Json.textField?, Json.get?_ofFields]
  simp [wireIds, wireId?_of_no_method hmethod]

end Rpc

end EditorHost
