/-!
# White space

The characters with the Unicode property `White_Space`, and texts without those at their ends.
-/

namespace EditorHost.Text

/-- Whether a character is white space. -/
def isBlank (c : Char) : Bool :=
  let n := c.toNat
  (0x09 ≤ n && n ≤ 0x0D) || n == 0x20 || n == 0x85 || n == 0xA0 || n == 0x1680 ||
    (0x2000 ≤ n && n ≤ 0x200A) || n == 0x2028 || n == 0x2029 || n == 0x202F || n == 0x205F ||
    n == 0x3000

/-- The text from its first to its last character that is not white space. -/
def trim (cs : List Char) : List Char :=
  ((cs.dropWhile isBlank).reverse.dropWhile isBlank).reverse

/-- Whether there is nothing but white space. -/
def isBlankText (s : String) : Bool := s.toList.all isBlank

end EditorHost.Text
