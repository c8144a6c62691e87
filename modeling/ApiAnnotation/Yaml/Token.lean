/-!
# Tokens of YAML

The structure that a text shows by brackets, dashes, colons and indentation becomes a list of
tokens. Blocks that only indentation shows have tokens of their own.
-/

namespace ApiAnnotation

namespace Yaml

/-- How a scalar is written, as far as it matters for its value. -/
inductive ScalarStyle where
  /-- Without quotes. -/
  | plain
  /-- Between quotes. -/
  | quoted
  /-- As a literal block. -/
  | literal
  /-- As a folded block. -/
  | folded
deriving DecidableEq, Repr

/-- A tag or a part of one, as bytes: its escapes may stand for bytes that are no text. -/
abbrev TagText := List UInt8

/-- The tag of ASCII characters. -/
def TagText.ofAscii (cs : List Char) : TagText := cs.map Char.toUInt8

/-- A tag ends before its first zero byte. -/
def TagText.untilZero (tag : TagText) : TagText := tag.takeWhile (· ≠ 0)

/-- A token. -/
inductive Token where
  /-- The version that a document states. -/
  | version (major minor : Nat)
  /-- A shorthand for tags that a document introduces. -/
  | shorthand (handle : List Char) (expansion : TagText)
  /-- The line before a document. -/
  | documentStart
  /-- The line after a document. -/
  | documentEnd
  /-- A list begins by its indentation. -/
  | blockList
  /-- A map begins by its indentation. -/
  | blockMap
  /-- A list or map ends by its indentation. -/
  | blockEnd
  /-- An opening square bracket. -/
  | openList
  /-- A closing square bracket. -/
  | closeList
  /-- An opening curly bracket. -/
  | openMap
  /-- A closing curly bracket. -/
  | closeMap
  /-- The dash before an item. -/
  | item
  /-- The comma between items. -/
  | comma
  /-- A key begins. -/
  | key
  /-- A value begins. -/
  | value
  /-- A reference to an anchor. -/
  | reference (name : List Char)
  /-- An anchor. -/
  | anchor (name : List Char)
  /-- A tag: the shorthand it uses, if it uses one, and the rest. -/
  | tag (handle : List Char) (suffix : TagText)
  /-- A scalar. -/
  | scalar (style : ScalarStyle) (text : List Char)
deriving DecidableEq, Repr

end Yaml

end ApiAnnotation
