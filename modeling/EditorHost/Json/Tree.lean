import EditorHost.Json.Numeral

/-!
# Reading JSON text

A text is first read into a `Tree`, which keeps what the text says: repeated fields, numerals that
denote no number, and strings with half of a surrogate pair.  `Tree.value?` then gives the value
denoted.  Some parts of a document are only skipped, and there such oddities do no harm; a reader
that knows which fields it looks at (`EditorHost.Json.Shape`) works on the tree.

Text follows RFC 8259: no comments, no trailing commas, blanks are space, tab, line feed and
carriage return, and control characters in strings are escaped.
-/

namespace EditorHost.Json

/-- What a JSON text says. -/
inductive Tree where
  | null
  | bool (value : Bool)
  /-- A numeral; `none` when it denotes no binary64 number. -/
  | number (value : Option Number)
  /-- A string; `none` when it holds half of a surrogate pair. -/
  | text (value : Option String)
  | array (items : List Tree)
  | object (fields : List (Option String × Tree))
  deriving Inhabited

/-! ## Tokens -/

/-- Blanks between tokens. -/
def isBlank (c : Char) : Bool := c == ' ' || c == '\n' || c == '\t' || c == '\r'

def skipBlanks (cs : List Char) : List Char := cs.dropWhile isBlank

def hexDigit? (c : Char) : Option Nat :=
  if '0' ≤ c ∧ c ≤ '9' then some (c.toNat - '0'.toNat)
  else if 'a' ≤ c ∧ c ≤ 'f' then some (c.toNat - 'a'.toNat + 10)
  else if 'A' ≤ c ∧ c ≤ 'F' then some (c.toNat - 'A'.toNat + 10)
  else none

/-- The code unit of four hexadecimal digits. -/
def codeUnit? (a b c d : Char) : Option Nat := do
  return ((← hexDigit? a) * 16 + (← hexDigit? b)) * 256 + (← hexDigit? c) * 16 + (← hexDigit? d)

/-- The character of a short escape. -/
def shortEscape? : Char → Option Char
  | '"' => some '"'
  | '\\' => some '\\'
  | '/' => some '/'
  | 'b' => some '\x08'
  | 'f' => some '\x0c'
  | 'n' => some '\n'
  | 'r' => some '\r'
  | 't' => some '\t'
  | _ => none

/-- Puts a character before the rest of a string. -/
def prepend (c : Char) (rest : Option (Option (List Char) × List Char)) :
    Option (Option (List Char) × List Char) :=
  rest.map fun (s, after) => (s.map (c :: ·), after)

/-- Marks a string as one that denotes no text. -/
def spoil (rest : Option (Option (List Char) × List Char)) :
    Option (Option (List Char) × List Char) :=
  rest.map fun (_, after) => (none, after)

def isHighSurrogate (unit : Nat) : Bool := 0xD800 ≤ unit && unit < 0xDC00
def isLowSurrogate (unit : Nat) : Bool := 0xDC00 ≤ unit && unit < 0xE000

/-- The character of two surrogates. -/
def joinSurrogates (high low : Nat) : Char :=
  Char.ofNat (0x10000 + (high - 0xD800) * 1024 + (low - 0xDC00))

/-- The characters of a string up to its closing quote, and the text behind it.  `high` is the first
half of a surrogate pair that was just read. -/
def readString (high : Option Nat) : List Char → Option (Option (List Char) × List Char)
  | [] => none
  | '"' :: rest => some (if high.isSome then none else some [], rest)
  | '\\' :: 'u' :: a :: b :: c :: d :: rest =>
    match codeUnit? a b c d, high with
    | none, _ => none
    | some unit, some high =>
      if isLowSurrogate unit then prepend (joinSurrogates high unit) (readString none rest)
      else spoil (readString none rest)
    | some unit, none =>
      if isHighSurrogate unit then readString (some unit) rest
      else if isLowSurrogate unit then spoil (readString none rest)
      else prepend (Char.ofNat unit) (readString none rest)
  | '\\' :: c :: rest =>
    match shortEscape? c with
    | some e =>
      if high.isSome then spoil (readString none rest) else prepend e (readString none rest)
    | none => none
  | c :: rest =>
    if c.toNat < 0x20 ∨ c = '\\' then none
    else if high.isSome then spoil (readString none rest)
    else prepend c (readString none rest)

def digitValue (c : Char) : Nat := c.toNat - '0'.toNat

/-- The leading digits, and what is behind them. -/
def readDigits (cs : List Char) : List Nat × List Char :=
  ((cs.takeWhile Char.isDigit).map digitValue, cs.dropWhile Char.isDigit)

/-- The fraction of a numeral, if it has one; a point without digits is an error. -/
def readFraction : List Char → Option (Option (List Nat) × List Char)
  | '.' :: rest =>
    match readDigits rest with
    | ([], _) => none
    | (digits, after) => some (some digits, after)
  | rest => some (none, rest)

/-- The exponent of a numeral, if it has one; a mark without digits is an error. -/
def readExponent : List Char → Option (Option (Bool × List Nat) × List Char)
  | c :: rest =>
    if c = 'e' ∨ c = 'E' then
      let (negative, rest) :=
        match rest with
        | '+' :: rest => (false, rest)
        | '-' :: rest => (true, rest)
        | rest => (false, rest)
      match readDigits rest with
      | ([], _) => none
      | (digits, after) => some (some (negative, digits), after)
    else some (none, c :: rest)
  | [] => some (none, [])

/-- A numeral: no sign but a minus, and no zero before other digits. -/
def readNumeral (cs : List Char) : Option (Numeral × List Char) := do
  let (negative, cs) := match cs with
    | '-' :: rest => (true, rest)
    | cs => (false, cs)
  let (whole, cs) ← match readDigits cs with
    | ([], _) => none
    | (0 :: _ :: _, _) => none
    | parts => some parts
  let (fraction, cs) ← readFraction cs
  let (exponent, cs) ← readExponent cs
  return (⟨negative, whole, fraction, exponent⟩, cs)

/-- The text behind a given word. -/
def expect? : List Char → List Char → Option (List Char)
  | [], rest => some rest
  | _ :: _, [] => none
  | w :: word, c :: rest => if w = c then expect? word rest else none

/-! ## Values -/

/-- The name of a field, if it denotes a text. -/
def fieldName (name : Option (List Char)) : Option String := name.map String.ofList

mutual
/-- A value and the text behind it.  Each step of the recursion takes a character at least, so the
length of the text is fuel enough. -/
def readValue : Nat → List Char → Option (Tree × List Char)
  | 0, _ => none
  | fuel + 1, cs =>
    match skipBlanks cs with
    | '{' :: rest =>
      match skipBlanks rest with
      | '}' :: after => some (.object [], after)
      | rest => (readFields fuel rest).map fun (fields, after) => (.object fields, after)
    | '[' :: rest =>
      match skipBlanks rest with
      | ']' :: after => some (.array [], after)
      | rest => (readItems fuel rest).map fun (items, after) => (.array items, after)
    | '"' :: rest => (readString none rest).map fun (s, after) => (.text (fieldName s), after)
    | 't' :: rest => (expect? "rue".toList rest).map fun after => (.bool true, after)
    | 'f' :: rest => (expect? "alse".toList rest).map fun after => (.bool false, after)
    | 'n' :: rest => (expect? "ull".toList rest).map fun after => (.null, after)
    | cs => (readNumeral cs).map fun (n, after) => (.number n.value, after)

/-- The items of an array up to its closing bracket. -/
def readItems : Nat → List Char → Option (List Tree × List Char)
  | 0, _ => none
  | fuel + 1, cs => do
    let (item, rest) ← readValue fuel cs
    match skipBlanks rest with
    | ']' :: after => return ([item], after)
    | ',' :: rest =>
      let (items, after) ← readItems fuel rest
      return (item :: items, after)
    | _ => none

/-- The fields of an object up to its closing brace. -/
def readFields : Nat → List Char → Option (List (Option String × Tree) × List Char)
  | 0, _ => none
  | fuel + 1, cs =>
    match skipBlanks cs with
    | '"' :: rest => do
      let (name, rest) ← readString none rest
      match skipBlanks rest with
      | ':' :: rest =>
        let (value, rest) ← readValue fuel rest
        match skipBlanks rest with
        | '}' :: after => return ([(fieldName name, value)], after)
        | ',' :: rest =>
          let (fields, after) ← readFields fuel rest
          return ((fieldName name, value) :: fields, after)
        | _ => none
      | _ => none
    | _ => none
end

/-- The tree of a text that holds one value and nothing else. -/
def Tree.parse? (text : List Char) : Option Tree := do
  let (tree, rest) ← readValue (2 * text.length + 2) text
  if (skipBlanks rest).isEmpty then some tree else none

/-! ## The value of a tree -/

/-- How many arrays and objects may be open at once in a value that is read. -/
def maxDepth : Nat := 127

mutual
/-- The value that a tree denotes, with at most `depth` arrays and objects open at once.  The last
of several fields of one name wins. -/
def Tree.value? (depth : Nat) : Tree → Option Json
  | .null => some .null
  | .bool b => some (.bool b)
  | .number n => n.map .number
  | .text s => s.map .text
  | .array items =>
    match depth with
    | 0 => none
    | depth + 1 => (Tree.values? depth items).map .array
  | .object fields =>
    match depth with
    | 0 => none
    | depth + 1 => (Tree.fieldValues? depth fields).map Json.ofFields

/-- The values of the items of an array. -/
def Tree.values? (depth : Nat) : List Tree → Option (List Json)
  | [] => some []
  | item :: rest => do return (← Tree.value? depth item) :: (← Tree.values? depth rest)

/-- The values of the fields of an object, in the order of the text. -/
def Tree.fieldValues? (depth : Nat) : List (Option String × Tree) → Option (List (String × Json))
  | [] => some []
  | (name, value) :: rest => do
    return (← name, ← Tree.value? depth value) :: (← Tree.fieldValues? depth rest)
end

/-- The value of a JSON text. -/
def parse? (text : String) : Option Json :=
  Tree.parse? text.toList >>= Tree.value? maxDepth

end EditorHost.Json
