/-!
# White space

`ApiAnnotation.isBlank` is the Unicode property `White_Space`: the characters that separate words,
that a trim removes, and that a token of white space is made of. Zero-width characters (`U+200B`,
`U+FEFF`) and the information separators `U+001C` to `U+001F` are not among them.
-/

namespace ApiAnnotation

/-- Whether a character has the Unicode property `White_Space`. -/
def isBlank (c : Char) : Bool :=
  let n := c.toNat
  (0x9 ≤ n && n ≤ 0xD) || n == 0x20 || n == 0x85 || n == 0xA0 || n == 0x1680 ||
    (0x2000 ≤ n && n ≤ 0x200A) || n == 0x2028 || n == 0x2029 || n == 0x202F || n == 0x205F ||
    n == 0x3000

/-- The line feed is white space. -/
theorem isBlank_newline : isBlank '\n' = true := by decide

end ApiAnnotation
