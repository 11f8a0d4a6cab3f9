/-!
# Cutting text at a character

A text with `n` separators has `n + 1` parts, which may be empty; joined by the separator they are
the text again.
-/

namespace EditorHost.Text

/-- The parts of a text between separators. -/
def split (separator : Char) : List Char → List (List Char)
  | [] => [[]]
  | c :: rest =>
    if c = separator then [] :: split separator rest
    else
      match split separator rest with
      | [] => [[c]]
      | first :: more => (c :: first) :: more

/-- The text before and behind the first separator. -/
def splitOnce (separator : Char) : List Char → Option (List Char × List Char)
  | [] => none
  | c :: rest =>
    if c = separator then some ([], rest)
    else (splitOnce separator rest).map fun (before, after) => (c :: before, after)

/-- The text behind a given beginning. -/
def dropPrefix? : List Char → List Char → Option (List Char)
  | [], cs => some cs
  | _ :: _, [] => none
  | p :: ps, c :: cs => if p = c then dropPrefix? ps cs else none

/-- Whether a text begins with another. -/
def startsWith (text beginning : String) : Bool :=
  (dropPrefix? beginning.toList text.toList).isSome

/-- The parts of a text between separators. -/
def splitText (separator : Char) (text : String) : List String :=
  (split separator text.toList).map String.ofList

/-- The text before and behind the first separator. -/
def splitTextOnce (separator : Char) (text : String) : Option (String × String) :=
  (splitOnce separator text.toList).map fun (before, after) =>
    (String.ofList before, String.ofList after)

theorem split_ne_nil (separator : Char) (cs : List Char) : split separator cs ≠ [] := by
  cases cs with
  | nil => simp [split]
  | cons c rest =>
    by_cases h : c = separator
    · simp [split, h]
    · simp only [split, h, if_false]
      split <;> simp

end EditorHost.Text
