import EditorHost.Feature.Position

/-!
# Diagnostics

Problems found in a document, by a language server or an extension.
-/

namespace EditorHost

open Json (Slot slots field?)

inductive Severity where
  | error
  | warning
  | information
  | hint
  deriving DecidableEq, Repr, Inhabited

structure Diagnostic where
  range : Range
  severity : Severity
  message : String
  source : Option String := none
  code : Option String := none
  deriving DecidableEq, Repr, Inhabited

namespace Severity

def name : Severity → String
  | .error => "error"
  | .warning => "warning"
  | .information => "information"
  | .hint => "hint"

/-- The severity that a language server means by a number. -/
def ofNumber : Nat → Severity
  | 1 => .error
  | 2 => .warning
  | 3 => .information
  | 4 => .hint
  | _ => .information

def toJson (s : Severity) : Json := .text s.name

def read (filler : Json.Filler) (v : Json) : Option Severity :=
  Json.readName filler ([error, warning, information, hint].map fun s => (s.name, s)) v

end Severity

namespace Diagnostic

def toJson (d : Diagnostic) : Json :=
  .ofFields <|
    [("range", d.range.toJson), ("severity", d.severity.toJson), ("message", .text d.message)] ++
    field? "source" (d.source.map .text) ++ field? "code" (d.code.map .text)

def read (filler : Json.Filler) (v : Json) : Option Diagnostic :=
  match slots ["range", "severity", "message", "source", "code"] v with
  | some [range, severity, message, source, code] => do
    return {
      range := ← range.required Range.read
      severity := ← severity.required (Severity.read filler)
      message := ← message.required Json.asText?
      source := ← source.optional Json.asText?
      code := ← code.optional Json.asText? }
  | _ => none

end Diagnostic

end EditorHost
