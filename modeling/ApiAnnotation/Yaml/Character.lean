/-!
# Characters of YAML

Which characters end a line, separate words, or may stand in a text.
-/

namespace ApiAnnotation

namespace Yaml

/-- Whether a character ends a line. -/
def isBreak (c : Char) : Bool :=
  c = '\n' || c = '\r' || c.toNat = 0x85 || c.toNat = 0x2028 || c.toNat = 0x2029

/-- Whether a character is a space or a tab. -/
def isSpacing (c : Char) : Bool := c = ' ' || c = '\t'

/-- Whether a character separates words, or ends the text. -/
def isGap (c : Char) : Bool := isSpacing c || isBreak c || c.toNat = 0

/-- Whether a text is at a gap or at its end. -/
def atGap (cs : List Char) : Bool := (cs.head?.map isGap).getD true

/-- Whether a character may stand in a written text as it is. -/
def isPrintable (c : Char) : Bool :=
  let n := c.toNat
  n = 0xA || (0x20 ≤ n && n ≤ 0x7E) || (0xA0 ≤ n && n ≠ 0xFEFF && n ≠ 0xFFFE && n ≠ 0xFFFF)

/-- Whether a character may occur in a text that is read. -/
def isReadable (c : Char) : Bool :=
  let n := c.toNat
  n = 0x9 || n = 0xA || n = 0xD || (0x20 ≤ n && n ≤ 0x7E) || n = 0x85 ||
    (0xA0 ≤ n && n ≠ 0xFFFE && n ≠ 0xFFFF)

/-- Whether a character may occur in a name. -/
def isNameChar (c : Char) : Bool := c.isAlphanum || c = '_' || c = '-'

/-- Whether a character is one of the indicators of flow collections. -/
def isFlowIndicator (c : Char) : Bool := ",[]\x7b\x7d".toList.contains c

/-- The mark that may stand at the start of a line. -/
def byteOrderMark : Char := Char.ofNat 0xFEFF

end Yaml

end ApiAnnotation
