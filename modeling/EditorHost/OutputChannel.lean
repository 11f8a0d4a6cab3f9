/-!
# Output channels

A channel keeps the last lines that an extension wrote to it.
-/

namespace EditorHost

structure OutputChannel where
  name : String
  lines : List String := []
  deriving DecidableEq, Repr, Inhabited

namespace OutputChannel

/-- How many lines a channel keeps. -/
def capacity : Nat := 1000

/-- Appends a line; the oldest one goes when there are too many. -/
def append (c : OutputChannel) (line : String) : OutputChannel :=
  let kept := if c.lines.length = capacity then c.lines.drop 1 else c.lines
  { c with lines := kept ++ [line] }

def clear (c : OutputChannel) : OutputChannel := { c with lines := [] }

end OutputChannel

end EditorHost
