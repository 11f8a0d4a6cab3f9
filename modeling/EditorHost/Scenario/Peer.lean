import EditorHost.Rpc.Frame
import EditorHost.Rpc.Message
import EditorHost.Scenario.Arguments

/-!
# Scripted language servers

At the other end of a line is a peer.  A scripted one answers every request that it receives with
the next reply of its queue; a peer that stands for a program sends back what it receives, or says
nothing.
-/

namespace EditorHost.Scenario

/-- What a peer does with a message. -/
inductive Behaviour where
  /-- It answers requests with the replies of its script. -/
  | scripted
  /-- It sends every message back. -/
  | echo
  | silent
  deriving DecidableEq, Repr, Inhabited

/-- The other end of a line. -/
structure Peer where
  line : Nat
  language : String
  behaviour : Behaviour := .scripted
  /-- The replies that are left. -/
  replies : List Json := []
  /-- Replies that are held back. -/
  kept : List (List UInt8) := []
  /-- How many messages of the client have been moved. -/
  taken : Nat := 0
  /-- Messages that have arrived and have not been received. -/
  arrived : List Json := []
  /-- Octets on their way to the client. -/
  sending : List (List UInt8) := []
  /-- What reads those octets on the client's side. -/
  decoder : Rpc.Decoder := {}
  /-- Whether the peer has closed its end. -/
  hasLeft : Bool := false
  /-- Whether the client has noticed. -/
  isOver : Bool := false
  deriving Inhabited

namespace Peer

mutual
/-- A value with an identifier in the place of every text `$id`. -/
def withId (id : Json) : Json → Json
  | .text s => if s = "$id" then id else .text s
  | .array items => .array (withIdAll id items)
  | .object fields => .object (withIdFields id fields)
  | v => v

def withIdAll (id : Json) : List Json → List Json
  | [] => []
  | v :: rest => withId id v :: withIdAll id rest

def withIdFields (id : Json) : List (String × Json) → List (String × Json)
  | [] => []
  | (name, v) :: rest => (name, withId id v) :: withIdFields id rest
end

/-- What a reply amounts to: octets to send, and what is held back from now on. -/
structure Reaction where
  octets : List UInt8 := []
  kept : List (List UInt8)

/-- What a reply amounts to that is neither a group nor held back. -/
def plainOctets (id : Json) (reply : Json) : List UInt8 :=
  let answer (field : String) (value : Json) : List UInt8 :=
    Rpc.encode (.ofFields [("jsonrpc", Rpc.version), ("id", id), (field, value)])
  match reply.get? "result", reply.get? "error", reply.get? "message", reply.get? "raw" with
  | some v, _, _, _ => answer "result" v
  | none, some e, _, _ => answer "error" e
  | none, none, some m, _ => Rpc.encode (withId id m)
  | none, none, none, some raw => octets raw
  | none, none, none, none => []

mutual
/-- What the reply to a request with an identifier amounts to. -/
def react (id : Json) (kept : List (List UInt8)) : Json → Reaction
  | .object fields =>
    if ["result", "error", "message", "raw"].any (Table.has fields) then
      { kept, octets := plainOctets id (.object fields) }
    else reactField id kept fields
  | _ => { kept }

/-- What a reply amounts to that is a group, held back, or releases what was held back. -/
def reactField (id : Json) (kept : List (List UInt8)) : List (String × Json) → Reaction
  | [] => { kept }
  | (name, value) :: rest =>
    if name = "many" then
      match value with
      | .array items => reactAll id kept items
      | _ => { kept }
    else if name = "hold" then
      let inner := react id kept value
      { kept := inner.kept ++ [inner.octets] }
    else if name = "flush" then
      let inner := react id kept value
      { octets := inner.octets ++ inner.kept.flatten, kept := [] }
    else reactField id kept rest

def reactAll (id : Json) (kept : List (List UInt8)) : List Json → Reaction
  | [] => { kept }
  | reply :: rest =>
    let first := react id kept reply
    let others := reactAll id first.kept rest
    { octets := first.octets ++ others.octets, kept := others.kept }
end

/-- Puts octets on their way to the client. -/
def send (p : Peer) (octets : List UInt8) : Peer :=
  if p.hasLeft || octets.isEmpty then p else { p with sending := p.sending ++ [octets] }

/-- The reply with which a peer closes its end instead of answering. -/
def leaving : Json := .text "drop"

/-- What a scripted peer does with a message. -/
def answer (p : Peer) (message : Json) : Peer :=
  match Rpc.present? message "id", Rpc.present? message "method", p.replies with
  | some id, some _, reply :: rest =>
    let r := react id p.kept reply
    let p := { p with replies := rest, kept := r.kept }.send r.octets
    { p with hasLeft := p.hasLeft || reply == leaving }
  | _, _, _ => p

/-- What a peer does with a message. -/
def take (p : Peer) (message : Json) : Peer :=
  match p.behaviour with
  | .scripted => p.answer message
  | .echo => p.send (Rpc.encode message)
  | .silent => p

/-- The first message that has arrived, and the peer without it. -/
def next? (p : Peer) : Option (Json × Peer) :=
  match p.arrived with
  | message :: rest => if p.hasLeft then none else some (message, { p with arrived := rest })
  | [] => none

end Peer

end EditorHost.Scenario
