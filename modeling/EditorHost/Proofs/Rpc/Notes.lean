import EditorHost.Proofs.Rpc.Messages
import EditorHost.Rpc.Client

/-!
# What a server is told about documents

A server knows of documents what the messages tell it that were queued for it.  `Note` is what such
a message says, and `told` puts all of them together: it gives the documents that are open at the
server, or nothing if the messages do not fit together.  They do not when one comes before the
server has been greeted, when a document is opened twice, when one that is not open is changed,
saved or closed, or when a change has not a greater version than the one before; only the greatest
version may come again.
-/

namespace EditorHost.Rpc

/-- What a message says about documents. -/
inductive Note where
  /-- From now on the server may be told about documents. -/
  | greeted
  | opened (uri : String) (d : Synced)
  | changed (uri : String) (version : Int) (text : String)
  | saved (uri : String)
  | closed (uri : String)
  /-- The message is about a document, but cannot be read. -/
  | garbled
  deriving DecidableEq, Repr

namespace Note

def opened? (params : Json) : Option Note := do
  let document ← params.get? "textDocument"
  return .opened (← document.textField? "uri") ⟨← document.textField? "languageId",
    ← (document.get? "version").bind Json.asInt?, ← document.textField? "text"⟩

/-- A change gives the whole text, and of several changes the last one counts. -/
def changed? (params : Json) : Option Note := do
  let document ← params.get? "textDocument"
  let changes ← (params.get? "contentChanges").bind Json.asArray?
  return .changed (← document.textField? "uri") (← (document.get? "version").bind Json.asInt?)
    (← changes.getLast?.bind fun change => change.textField? "text")

def uri? (params : Json) : Option String :=
  (params.get? "textDocument").bind fun document => document.textField? "uri"

/-- What a notification says about documents, if it does. -/
def ofNotification? (method : String) (params : Json) : Option Note :=
  if method = "initialized" then some .greeted
  else if method = "textDocument/didOpen" then some ((opened? params).getD .garbled)
  else if method = "textDocument/didChange" then some ((changed? params).getD .garbled)
  else if method = "textDocument/didSave" then some (((uri? params).map .saved).getD .garbled)
  else if method = "textDocument/didClose" then some (((uri? params).map .closed).getD .garbled)
  else none

/-- What a message says about documents, if it does. -/
def read? (message : Json) : Option Note :=
  match Incoming.classify message with
  | .notification method params => ofNotification? method params
  | _ => none

end Note

/-- What a server knows of documents. -/
inductive Knowledge where
  | nothing
  | documents (documents : Table Synced)
  deriving DecidableEq, Repr

/-- What a server knows once it has been told something; `none` when that does not fit. -/
def Knowledge.take : Knowledge → Note → Option Knowledge
  | nothing, .greeted => some (documents [])
  | documents docs, .opened uri d =>
    if docs.has uri then none else some (documents (docs.insert uri d))
  | documents docs, .changed uri version text =>
    match docs.find? uri with
    | some d =>
      if d.version < version ∨ d.version = version ∧ version = Document.greatestVersion then
        some (documents (docs.insert uri { d with version, text }))
      else none
    | none => none
  | documents docs, .saved uri => if docs.has uri then some (documents docs) else none
  | documents docs, .closed uri =>
    if docs.has uri then some (documents (docs.erase uri)) else none
  | _, _ => none

/-- What a server knows from all that was queued for it; `none` when that does not fit together. -/
def told (queued : List Json) : Option Knowledge :=
  (queued.filterMap Note.read?).foldlM Knowledge.take .nothing

/-! ## Messages that say something -/

theorem read?_notification (method : String) (params : Json) :
    Note.read? (notification method params) = Note.ofNotification? method params := by
  rw [Note.read?, classify_notification]

theorem read?_request (id : Int) (method : String) (params : Json) :
    Note.read? (request id method params) = none := by
  rw [Note.read?, classify_request]

theorem read?_response (id result : Json) : Note.read? (response id result) = none := by
  have hmethod : (response id result).textField? "method" = none := by
    simp [response, Json.textField?, Json.get?_ofFields]
  unfold Note.read? Incoming.classify
  rw [hmethod]
  cases present? (response id result) "id" with
  | none => rfl
  | some id => cases hid : numericId? id <;> simp [hid]

open Client (didOpenParams didChangeParams didSaveParams identifier)

theorem read?_initialized : Note.read? (notification "initialized" .empty) = some .greeted := by
  rw [read?_notification]
  rfl

theorem read?_didOpen (uri : String) (d : Synced) :
    Note.read? (notification "textDocument/didOpen" (didOpenParams uri d)) =
      some (.opened uri d) := by
  rw [read?_notification]
  simp [Note.ofNotification?, Note.opened?, didOpenParams, Json.textField?, Json.get?_ofFields,
    Json.asText?, Json.asInt?, Json.whole]

theorem read?_didChange (uri : String) (d : Synced) :
    Note.read? (notification "textDocument/didChange" (didChangeParams uri d)) =
      some (.changed uri d.version d.text) := by
  rw [read?_notification]
  simp [Note.ofNotification?, Note.changed?, didChangeParams, Json.textField?, Json.get?_ofFields,
    Json.asText?, Json.asInt?, Json.asArray?, Json.whole]

theorem read?_didSave (uri : String) (d : Synced) :
    Note.read? (notification "textDocument/didSave" (didSaveParams uri d)) = some (.saved uri) := by
  rw [read?_notification]
  simp [Note.ofNotification?, Note.uri?, didSaveParams, Json.textField?, Json.get?_ofFields,
    Json.asText?]

theorem read?_didClose (uri : String) :
    Note.read? (notification "textDocument/didClose" (identifier uri)) = some (.closed uri) := by
  rw [read?_notification]
  simp [Note.ofNotification?, Note.uri?, identifier, Json.textField?, Json.get?_ofFields,
    Json.asText?]

/-! ## One message more -/

theorem told_append {queued : List Json} {k : Knowledge} (h : told queued = some k)
    (more : List Json) :
    told (queued ++ more) = (more.filterMap Note.read?).foldlM Knowledge.take k := by
  rw [told] at h ⊢
  rw [List.filterMap_append, List.foldlM_append, h]
  rfl

theorem told_silent {queued : List Json} {message : Json} (h : Note.read? message = none) :
    told (queued ++ [message]) = told queued := by
  rw [told, List.filterMap_append, List.filterMap_cons_none h, List.filterMap_nil, List.append_nil]
  rfl

theorem told_note {queued : List Json} {k : Knowledge} {message : Json} {note : Note}
    (h : told queued = some k) (hnote : Note.read? message = some note) :
    told (queued ++ [message]) = k.take note := by
  rw [told_append h, List.filterMap_cons_some hnote, List.filterMap_nil, List.foldlM_cons]
  cases k.take note <;> rfl

end EditorHost.Rpc
