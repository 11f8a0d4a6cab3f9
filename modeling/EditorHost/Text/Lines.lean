/-!
# Lines of a text

A text is cut behind every line feed.  The pieces are kept with the terminators that they had, so
that nothing of the text is lost; a line is a piece without its terminator.  A carriage return
belongs to the terminator when a line feed follows it.  There is no empty line behind the last
terminator.
-/

namespace EditorHost.Text

/-- How a line ends. -/
inductive Ending where
  | none
  | lineFeed
  | carriageReturnLineFeed
  deriving DecidableEq, Repr

/-- The characters of a terminator. -/
def Ending.chars : Ending → List Char
  | .none => []
  | .lineFeed => ['\n']
  | .carriageReturnLineFeed => ['\r', '\n']

/-- A line and its terminator. -/
structure Segment where
  body : List Char
  ending : Ending
  deriving DecidableEq, Repr

/-- The pieces of a text. -/
def segments : List Char → List Segment
  | [] => []
  | '\n' :: rest => ⟨[], .lineFeed⟩ :: segments rest
  | '\r' :: '\n' :: rest => ⟨[], .carriageReturnLineFeed⟩ :: segments rest
  | c :: rest =>
    match segments rest with
    | [] => [⟨[c], .none⟩]
    | first :: more => { first with body := c :: first.body } :: more

/-- The lines of a text. -/
def lines (text : String) : List String :=
  (segments text.toList).map fun segment => String.ofList segment.body

/-- The pieces put together again are the text. -/
theorem segments_join (cs : List Char) :
    (segments cs).flatMap (fun segment => segment.body ++ segment.ending.chars) = cs := by
  fun_induction segments cs with
  | case1 => rfl
  | case2 rest ih => rw [List.flatMap_cons, ih]; rfl
  | case3 rest ih => rw [List.flatMap_cons, ih]; rfl
  | case4 c rest hlf hcrlf hempty ih =>
    simp only [hempty, List.flatMap_nil] at ih
    simp [Ending.chars, ← ih]
  | case5 c rest hlf hcrlf first more hmore ih =>
    simp only [hmore, List.flatMap_cons] at ih
    simp [← ih]

end EditorHost.Text
