/-!
# Glob patterns

A pattern is matched against a whole path, by case.  `?` is any character and `*` any sequence of
them, slashes included; `**` is a whole component and stands for any number of components; a bracket
holds the characters and ranges that it accepts or, behind `!`, rejects.  A pattern that breaks
these rules is no pattern and matches nothing.
-/

namespace EditorHost.Glob

/-- An entry of a bracket: the characters from one to another. -/
structure Range where
  first : Char
  last : Char
  deriving DecidableEq, Repr

def Range.contains (r : Range) (c : Char) : Bool := r.first ≤ c && c ≤ r.last

/-- A part of a pattern. -/
inductive Token where
  | literal (c : Char)
  | anyChar
  | anySequence
  | anyComponents
  | within (ranges : List Range)
  | except (ranges : List Range)
  deriving DecidableEq, Repr

/-- The entries of a bracket. -/
def readRanges : List Char → List Range
  | a :: '-' :: b :: rest => ⟨a, b⟩ :: readRanges rest
  | a :: rest => ⟨a, a⟩ :: readRanges rest
  | [] => []

/-- The characters up to the first closing bracket, and what is behind it. -/
def readBracket : List Char → Option (List Char × List Char)
  | [] => none
  | ']' :: rest => some ([], rest)
  | c :: rest => (readBracket rest).map fun (inside, after) => (c :: inside, after)

/-- A bracket behind its opening sign.  Its first character belongs to it even when it is a closing
bracket. -/
def readClass : List Char → Option (Token × List Char)
  | '!' :: c :: rest =>
    (readBracket rest).map fun (inside, after) => (.except (readRanges (c :: inside)), after)
  | '!' :: _ => none
  | c :: rest =>
    (readBracket rest).map fun (inside, after) => (.within (readRanges (c :: inside)), after)
  | [] => none

/-- Puts `**` before a list of tokens, unless the tokens before it already end in one. -/
def pushComponents (soFar : List Token) : List Token :=
  match soFar with
  | .anyComponents :: _ :: _ => soFar
  | _ => .anyComponents :: soFar

/-- Reads a pattern.  `before` is the character before the rest, and `soFar` holds the tokens read,
the last one first.  Each step takes a character at least, so the length of the pattern is fuel
enough. -/
def read : Nat → Option Char → List Token → List Char → Option (List Token)
  | _, _, soFar, [] => some soFar.reverse
  | 0, _, _, _ => none
  | fuel + 1, before, soFar, cs =>
    match cs with
    | '*' :: '*' :: '*' :: _ => none
    | ['*', '*'] =>
      if before = none ∨ before = some '/' then some (pushComponents soFar).reverse else none
    | '*' :: '*' :: c :: rest =>
      if (before = none ∨ before = some '/') ∧ c = '/' then
        read fuel (some '/') (pushComponents soFar) rest
      else none
    | '*' :: rest => read fuel (some '*') (.anySequence :: soFar) rest
    | '?' :: rest => read fuel (some '?') (.anyChar :: soFar) rest
    | '[' :: rest =>
      match readClass rest with
      | some (token, after) => read fuel (some ']') (token :: soFar) after
      | none => none
    | c :: rest => read fuel (some c) (.literal c :: soFar) rest
    | [] => none

/-- The tokens of a pattern; `none` when it is not one. -/
def parse? (pattern : String) : Option (List Token) :=
  read pattern.toList.length none [] pattern.toList

/-- What comes of matching tokens against a text. -/
inductive Fit where
  | fits
  | differs
  /-- The text ended first.  Then no end of the text fits either, and a search among them is
  over. -/
  | tooShort
  deriving DecidableEq, Repr

/-- The first of two that does not differ. -/
def Fit.orElse (first : Fit) (second : Unit → Fit) : Fit :=
  match first with
  | .differs => second ()
  | found => found

/-- What comes of matching the ends of a text, the longest one first. -/
def someTail (test : List Char → Fit) : List Char → Fit
  | [] => test []
  | c :: rest => (test (c :: rest)).orElse fun _ => someTail test rest

/-- What comes of matching the ends of a text that start behind a slash, and the empty one. -/
def someComponent (test : List Char → Fit) : List Char → Fit
  | [] => test []
  | c :: rest =>
    (if c = '/' then test rest else .differs).orElse fun _ => someComponent test rest

/-- What comes of matching tokens against a text from end to end. -/
def matchTokens : List Token → List Char → Fit
  | [], cs => if cs.isEmpty then .fits else .differs
  | .anySequence :: rest, cs => someTail (matchTokens rest) cs
  | .anyComponents :: rest, cs =>
    (matchTokens rest cs).orElse fun _ => someComponent (matchTokens rest) cs
  | .literal _ :: _, [] | .anyChar :: _, [] | .within _ :: _, [] | .except _ :: _, [] => .tooShort
  | .literal l :: rest, c :: cs => if l == c then matchTokens rest cs else .differs
  | .anyChar :: rest, _ :: cs => matchTokens rest cs
  | .within ranges :: rest, c :: cs =>
    if ranges.any (·.contains c) then matchTokens rest cs else .differs
  | .except ranges :: rest, c :: cs =>
    if ranges.any (·.contains c) then .differs else matchTokens rest cs

/-- Whether a pattern matches a text; what is no pattern matches nothing. -/
def matches? (pattern text : String) : Bool :=
  match parse? pattern with
  | some tokens => matchTokens tokens text.toList == .fits
  | none => false

end EditorHost.Glob
