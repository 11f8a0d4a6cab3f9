import EditorHost.Proofs.Purpose
import EditorHost.Proofs.Rpc.ClientCalls
import EditorHost.Proofs.Table

/-!
# Servers that replace each other

Every server that is ever connected gets a number, and numbers go up.  A server becomes the current
one of a language when it is connected, and never again once it has been forgotten
(`Client.Succeeds`).  So when all servers are ended, whatever is current later was connected later
(`Client.Renewed`).
-/

namespace EditorHost.Rpc.Client

/-- What is current was current before, or has been connected since. -/
structure Succeeds (c c' : Client) : Prop where
  length : c.connections.length ≤ c'.connections.length
  servers : ∀ language id, c'.servers.find? language = some id →
    c.servers.find? language = some id ∨ c.connections.length ≤ id

/-- All that is current has been connected since. -/
structure Renewed (c c' : Client) : Prop where
  length : c.connections.length ≤ c'.connections.length
  servers : ∀ language id, c'.servers.find? language = some id → c.connections.length ≤ id

variable {c c' c'' : Client}

namespace Succeeds

theorem of_eq (hservers : c'.servers = c.servers)
    (hlength : c.connections.length ≤ c'.connections.length) : c.Succeeds c' :=
  ⟨hlength, fun _ _ h => .inl (hservers ▸ h)⟩

theorem refl (c : Client) : c.Succeeds c := .of_eq rfl (Nat.le_refl _)

theorem trans (c c' c'' : Client) (h : c.Succeeds c') (h' : c'.Succeeds c'') : c.Succeeds c'' := by
  refine ⟨Nat.le_trans h.length h'.length, fun language id hid => ?_⟩
  rcases h'.servers language id hid with hold | hnew
  · exact h.servers language id hold
  · exact .inr (Nat.le_trans h.length hnew)

theorem of_touches {ids : List ServerId} (h : Touches ids c c') : c.Succeeds c' :=
  .of_eq h.servers (Nat.le_of_eq h.length.symm)

end Succeeds

namespace Renewed

theorem succeeds (c c' : Client) (h : c.Renewed c') : c.Succeeds c' :=
  ⟨h.length, fun language id hid => .inr (h.servers language id hid)⟩

theorem before (c c' c'' : Client) (h : c.Succeeds c') (h' : c'.Renewed c'') : c.Renewed c'' :=
  ⟨Nat.le_trans h.length h'.length, fun language id hid =>
    Nat.le_trans h.length (h'.servers language id hid)⟩

theorem behind (c c' c'' : Client) (h : c.Renewed c') (h' : c'.Succeeds c'') : c.Renewed c'' := by
  refine ⟨Nat.le_trans h.length h'.length, fun language id hid => ?_⟩
  rcases h'.servers language id hid with hold | hnew
  · exact h.servers language id hold
  · exact Nat.le_trans h.length hnew

end Renewed

/-! ## Steps -/

theorem Attached.succeeds {language : String} (h : Attached language c c') : c.Succeeds c' := by
  refine ⟨h.length ▸ Nat.le_succ _, fun other id hid => ?_⟩
  rw [h.servers, Table.find?_insert] at hid
  split at hid
  · exact .inr (Nat.le_of_eq (Option.some.inj hid))
  · exact .inl hid

theorem succeeds_launch (language : String) (c : Client) : c.Succeeds (c.launch language).2 := by
  unfold launch
  split
  · exact .refl c
  next command _ =>
    split
    · have h : Attached language c (c.newLine.2.attach language command c.newLine.1).2 :=
        ⟨⟨command, c.settings.timeout, c.processId, _, rfl⟩, rfl, rfl⟩
      exact Succeeds.trans _ _ _ h.succeeds (.of_eq rfl (Nat.le_refl _))
    · exact .refl c

theorem succeeds_notify (c : Client) (id : Option ServerId) (method : String) (params : Json) :
    c.Succeeds (c.notify id method params) := by
  cases id with
  | none => exact .refl c
  | some id => exact .of_eq rfl (Nat.le_of_eq (length_modifyServer _).symm)

theorem succeeds_track (c : Client) (uri language text : String) :
    c.Succeeds (c.track uri language text).2 := by
  unfold track
  split <;> exact .of_eq rfl (Nat.le_refl _)

theorem renewed_forgetAll (c : Client) : c.Renewed c.forgetAll.2 :=
  ⟨Nat.le_refl _, fun _ _ hid => nomatch hid⟩

/-! ## Calls -/

theorem within_pause_sync {α β : Type} {run : StateM Client α} (hrun : Keeps Succeeds run)
    {next : α → Flow Client β} (hnext : ∀ value, (next value).Within Succeeds) :
    (Flow.pause.bind fun _ => (Flow.sync run).bind next).Within Succeeds :=
  fun _ => (Flow.within_sync hrun).bind hnext

theorem within_succeeds_startServer (language : String) : (startServer language).Within Succeeds :=
  within_startServer (fun _ _ _ => .of_touches) succeeds_launch language

theorem within_succeeds_didOpen (uri language text : String) :
    (didOpen uri language text).Within Succeeds := by
  have htell (method : String) (id : Client → Option ServerId) (params : Json) :
      Keeps Succeeds fun c => ((), c.notify (id c) method params) :=
    fun c => c.succeeds_notify (id c) method params
  refine within_pause_sync (fun c => c.succeeds_track uri language text) fun (previous, d) => ?_
  cases previous with
  | none => exact fun _ => Flow.within_sync (htell _ _ _)
  | some previous =>
      dsimp only
      split
      · exact fun _ => Flow.within_sync (htell _ _ _)
      · exact within_pause_sync (htell _ _ _) fun _ _ => Flow.within_sync (htell _ _ _)

/-- To end all servers leaves none that was current. -/
theorem once_forceShutdown : forceShutdown.Once Succeeds Renewed := by
  refine .pause_bind (.bind (Flow.once_sync renewed_forgetAll) fun ids => ?_)
  have hkill (id : ServerId) : (Server.kill.focus (server id)).Within Succeeds :=
    (within_focus Server.kill (List.mem_singleton_self id)).mono fun _ _ => .of_touches
  refine (Flow.Within.each fun id _ => hkill id).bind fun _ _ => ?_
  exact Flow.within_sync fun c => .of_eq rfl (Nat.le_refl _)

end EditorHost.Rpc.Client
