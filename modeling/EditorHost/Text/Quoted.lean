import EditorHost.Text.Printable

/-!
# Texts quoted for a log

A quoted text stands on one line between double quotes, and no two texts are quoted alike: quotes
and backslashes are escaped, line ends and tabs have short escapes, and a character that would not
be seen is written by its code.
-/

namespace EditorHost.Text

/-- The hexadecimal digits of a code. -/
def hexDigits (n : Nat) : List Char := Nat.toDigits 16 n

/-- A character as it stands in a quoted text. -/
def quoteChar (c : Char) : List Char :=
  if c = '"' then ['\\', '"']
  else if c = '\\' then ['\\', '\\']
  else if c = '\n' then ['\\', 'n']
  else if c = '\r' then ['\\', 'r']
  else if c = '\t' then ['\\', 't']
  else if c = '\x00' then ['\\', '0']
  else if isPrintable c then [c]
  else ['\\', 'u', '\x7b'] ++ hexDigits c.toNat ++ ['\x7d']

/-- A text in quotes. -/
def quote (cs : List Char) : String := String.ofList ('"' :: cs.flatMap quoteChar ++ ['"'])

/-- The text of a path in quotes; an apostrophe is escaped too. -/
def quotePath (cs : List Char) : String :=
  let shown (c : Char) : List Char := if c = '\'' then ['\\', c] else quoteChar c
  String.ofList ('"' :: cs.flatMap shown ++ ['"'])

end EditorHost.Text
