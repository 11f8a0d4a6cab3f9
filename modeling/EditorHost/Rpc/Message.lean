import EditorHost.Json.Printer
import EditorHost.Json.Slots
import EditorHost.Text.Numeral

/-!
# JSON-RPC messages

What a message of the other side is follows from its fields: one with a method is a request when it
has an identifier and a notification otherwise; one without a method is a response when its
identifier is a number, or a text that writes one.  Anything else is invalid.
-/

namespace EditorHost.Rpc

open Json (Slot slots field?)

/-- The error that a response reports. -/
structure ResponseError where
  code : Int
  message : String
  data : Option Json := none
  deriving DecidableEq, Repr, Inhabited

/-- A message of the other side. -/
inductive Incoming where
  | response (id : Int) (result : Except ResponseError Json)
  | request (id : Json) (method : String) (params : Json)
  | notification (method : String) (params : Json)
  | invalid (message : Json)

namespace ResponseError

def toJson (e : ResponseError) : Json :=
  .ofFields ([("code", .whole e.code), ("message", .text e.message)] ++ field? "data" e.data)

def read (v : Json) : Option ResponseError :=
  match slots ["code", "message", "data"] v with
  | some [code, message, data] => do
    return ⟨← code.required Json.asInt64?, ← message.required Json.asText?, ← data.omittable some⟩
  | _ => none

/-- The error of a response; one of another form is reported by its text. -/
def ofJson (v : Json) : ResponseError := (read v).getD ⟨0, v.compact, none⟩

end ResponseError

/-- The number that identifies a response: the number itself, or a text that writes it. -/
def numericId? : Json → Option Int
  | .text s => Text.readInt64? s.toList
  | v => v.asInt64?

/-- A field that is there and not null. -/
def present? (message : Json) (key : String) : Option Json :=
  (message.get? key).filter fun v => !v.isNull

/-- The parameters of a message. -/
def paramsOf (message : Json) : Json := .ofOption (message.get? "params")

/-- The result or error that a response carries. -/
def resultOf (message : Json) : Except ResponseError Json :=
  match present? message "error" with
  | some e => .error (ResponseError.ofJson e)
  | none => .ok (.ofOption (message.get? "result"))

/-- What a message is. -/
def Incoming.classify (message : Json) : Incoming :=
  match message.textField? "method", present? message "id" with
  | some method, some id => .request id method (paramsOf message)
  | some method, none => .notification method (paramsOf message)
  | none, some id =>
    match numericId? id with
    | some id => .response id (resultOf message)
    | none => .invalid message
  | none, none => .invalid message

/-- The version of the protocol, which every message states. -/
def version : Json := .text "2.0"

def request (id : Int) (method : String) (params : Json) : Json :=
  .ofFields [("jsonrpc", version), ("id", .whole id), ("method", .text method), ("params", params)]

def notification (method : String) (params : Json) : Json :=
  .ofFields [("jsonrpc", version), ("method", .text method), ("params", params)]

def response (id result : Json) : Json :=
  .ofFields [("jsonrpc", version), ("id", id), ("result", result)]

end EditorHost.Rpc
