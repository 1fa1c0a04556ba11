import EntitySplit.Text.Basic

namespace EntitySplit

namespace Text

/-- White space in the sense of Unicode: the characters with the property
    `White_Space`. -/
def isBlank (c : Char) : Bool :=
  let n := c.toNat
  (9 ≤ n && n ≤ 13) || n = 0x20 || n = 0x85 || n = 0xA0 || n = 0x1680 ||
    (0x2000 ≤ n && n ≤ 0x200A) ||
    n = 0x2028 || n = 0x2029 || n = 0x202F || n = 0x205F || n = 0x3000

/-- A space or a tab: what indents a line. -/
def isIndent (c : Char) : Bool :=
  c = ' ' || c = '\t'

/-- The text without the white space at its end, line breaks included. -/
def trimEnd (t : Text) : Text :=
  (t.reverse.dropWhile isBlank).reverse

/-- The text without the white space at its two ends. -/
def trim (t : Text) : Text :=
  trimEnd (t.dropWhile isBlank)

/-- The text without any white space. -/
def withoutBlanks (t : Text) : Text :=
  t.filter (!isBlank ·)

end Text

end EntitySplit
