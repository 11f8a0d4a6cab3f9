import EditorHost.Fault
import EditorHost.Json.Printer
import EditorHost.Json.Tree
import EditorHost.Text.Blank
import EditorHost.Text.Numeral
import EditorHost.Text.Quoted
import EditorHost.Text.Split
import EditorHost.Text.Utf8

/-!
# Framed messages

A stream of octets carries JSON messages in frames: header lines, an empty line, and a body of as
many octets as the header `Content-Length` says.  Lines that are no such header are ignored, so that
stray output before a frame does no harm.  A header block without a usable length is discarded
alone, and a body that is not JSON is discarded with its header; both leave a warning.

## Contents

* `next` looks at the octets that have arrived and says what comes first.
* `Decoder` keeps the octets that no frame has used up; `Decoder.feed` takes more of them.
* `encode` writes the frame of a message.
-/

namespace EditorHost.Rpc

/-- The greatest body that is accepted. -/
def maxBody : Nat := 64 * 1024 * 1024

/-- Why a part of the stream was discarded. -/
inductive FrameWarning where
  | badLength (value : String)
  | tooLong (length : Nat)
  | noLength (header : String)
  | badBody
  deriving DecidableEq, Repr

/-- The fault that a discarded part is reported as. -/
def FrameWarning.fault : FrameWarning → Fault
  | .badLength value => .protocol s!"invalid Content-Length '{value}'"
  | .tooLong length => .protocol s!"Content-Length {length} exceeds limit of {maxBody} bytes"
  | .noLength header => .protocol s!"missing Content-Length in header {Text.quote header.toList}"
  | .badBody => .protocol "invalid JSON body: malformed text"

/-! ## Headers -/

/-- The octets before and behind the first empty line. -/
def splitHeader : List UInt8 → Option (List UInt8 × List UInt8)
  | 13 :: 10 :: 13 :: 10 :: rest => some ([], rest)
  | octet :: rest => (splitHeader rest).map fun (header, body) => (octet :: header, body)
  | [] => none

/-- The text without carriage returns at its end. -/
def dropReturns (line : List Char) : List Char := (line.reverse.dropWhile (· = '\r')).reverse

/-- The value that a header line gives to the length of the body, if it is one that does. -/
def lengthValue? (line : List Char) : Option (List Char) := do
  let (name, value) ← Text.splitOnce ':' (dropReturns line)
  if (Text.trim name).map Char.toLower = "content-length".toList then some (Text.trim value)
  else none

/-- The length that a value says. -/
def readLength (value : List Char) : Except FrameWarning Nat :=
  match Text.readNat64? value with
  | none => .error (.badLength (String.ofList value))
  | some n => if maxBody < n then .error (.tooLong n) else .ok n

/-- The length that header lines say: the first bad one spoils the header, of good ones the last
counts. -/
def lengthOfLines : Option Nat → List (List Char) → Except FrameWarning (Option Nat)
  | found, [] => .ok found
  | found, line :: rest =>
    match lengthValue? line with
    | none => lengthOfLines found rest
    | some value =>
      match readLength value with
      | .error w => .error w
      | .ok n => lengthOfLines (some n) rest

/-- The length of the body behind a header block. -/
def lengthOfHeader (header : List UInt8) : Except FrameWarning Nat :=
  let text := (Utf8.decodeLossy header).toList
  match lengthOfLines none (Text.split '\n' text) with
  | .error w => .error w
  | .ok (some n) => .ok n
  | .ok none => .error (.noLength (String.ofList (Text.trim text)))

/-! ## Reading -/

/-- What the octets that have arrived begin with. -/
inductive Verdict where
  /-- Nothing complete. -/
  | wait
  | message (message : Json) (rest : List UInt8)
  | discard (warning : FrameWarning) (rest : List UInt8)

/-- The value of a body. -/
def readBody? (body : List UInt8) : Option Json := (Utf8.decode? body).bind Json.parse?

/-- What the octets that have arrived begin with. -/
def next (octets : List UInt8) : Verdict :=
  match splitHeader octets with
  | none => .wait
  | some (header, behind) =>
    match lengthOfHeader header with
    | .error w => .discard w behind
    | .ok n =>
      if behind.length < n then .wait
      else
        match readBody? (behind.take n) with
        | some message => .message message (behind.drop n)
        | none => .discard .badBody (behind.drop n)

/-- Something read from a stream. -/
inductive Item where
  | message (message : Json)
  | warning (warning : FrameWarning)
  deriving DecidableEq, Repr

/-- Everything complete in the octets that have arrived, and the octets behind it.  Each item takes
some octets, so their number is fuel enough. -/
def drain : Nat → List UInt8 → List Item × List UInt8
  | 0, octets => ([], octets)
  | fuel + 1, octets =>
    match next octets with
    | .wait => ([], octets)
    | .message m rest =>
      let (items, left) := drain fuel rest
      (.message m :: items, left)
    | .discard w rest =>
      let (items, left) := drain fuel rest
      (.warning w :: items, left)

/-- A stream that is being read: the octets that no frame has used up. -/
structure Decoder where
  pending : List UInt8 := []
  deriving DecidableEq, Repr, Inhabited

namespace Decoder

/-- Takes more octets, and gives what they complete. -/
def feed (d : Decoder) (octets : List UInt8) : List Item × Decoder :=
  let arrived := d.pending ++ octets
  let (items, left) := drain arrived.length arrived
  (items, ⟨left⟩)

/-- Ends the stream: what is complete is given, and the rest is dropped. -/
def finish (d : Decoder) : List Item × Decoder := ((d.feed []).1, {})

end Decoder

/-- The messages among items. -/
def messages (items : List Item) : List Json :=
  items.filterMap fun item => match item with
    | .message m => some m
    | .warning _ => none

/-- The warnings among items. -/
def warnings (items : List Item) : List FrameWarning :=
  items.filterMap fun item => match item with
    | .message _ => none
    | .warning w => some w

/-! ## Writing -/

/-- A frame of a body. -/
def frame (body : List UInt8) : List UInt8 :=
  Utf8.encode s!"Content-Length: {body.length}\r\n\r\n" ++ body

/-- The frame of a message. -/
def encode (message : Json) : List UInt8 := frame (Utf8.encode message.compact)

end EditorHost.Rpc
