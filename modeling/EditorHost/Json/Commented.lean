import EditorHost.Json.Tree

/-!
# JSON with comments

A settings file is JSON in which comments may stand where blanks may: from `//` or `#` to the end of
the line, and between `/*` and `*/`.  Nothing else is added to the format; in particular there are
no trailing commas.  A comment becomes blanks, and the rest is read as plain JSON.
-/

namespace EditorHost.Json

/-- Where a scan of a commented text stands. -/
inductive Commentary where
  | outside
  | inString
  /-- Behind a backslash in a string. -/
  | escaped
  /-- Behind a slash. -/
  | opening
  | inLine
  | inBlock
  /-- Behind an asterisk in a block comment. -/
  | closing
  deriving DecidableEq, Repr

/-- The character that takes the place of one, and where the scan stands behind it; `none` when a
slash opens no comment. -/
def Commentary.step : Commentary → Char → Option (Char × Commentary)
  | .outside, '"' => some ('"', .inString)
  | .outside, '/' => some (' ', .opening)
  | .outside, '#' => some (' ', .inLine)
  | .outside, c => some (c, .outside)
  | .inString, '"' => some ('"', .outside)
  | .inString, '\\' => some ('\\', .escaped)
  | .inString, c => some (c, .inString)
  | .escaped, c => some (c, .inString)
  | .opening, '*' => some (' ', .inBlock)
  | .opening, '/' => some (' ', .inLine)
  | .opening, _ => none
  | .inLine, '\n' => some ('\n', .outside)
  | .inLine, _ => some (' ', .inLine)
  | .inBlock, '*' => some (' ', .closing)
  | .inBlock, _ => some (' ', .inBlock)
  | .closing, '/' => some (' ', .outside)
  | .closing, '*' => some (' ', .closing)
  | .closing, _ => some (' ', .inBlock)

/-- The text with its comments blanked; `none` when a comment or a string does not end, or a slash
opens no comment. -/
def stripComments : Commentary → List Char → Option (List Char)
  | state, [] => if state = .outside ∨ state = .inLine then some [] else none
  | state, c :: rest => do
    let (shown, next) ← state.step c
    return shown :: (← stripComments next rest)

/-- The value of a JSON text with comments. -/
def parseCommented? (text : String) : Option Json := do
  let plain ← stripComments .outside text.toList
  Tree.parse? plain >>= Tree.value? maxDepth

end EditorHost.Json
