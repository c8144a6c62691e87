import ApiAnnotation.Json

/-!
# The text of JSON values

Values are written either on one line without blanks, or with one item or member on each line, two
spaces deeper than the value they belong to. Empty lists and objects are `[]` and `{}`
in both.
-/

namespace ApiAnnotation

namespace Json

/-- The digit of a number below sixteen, letters being small. -/
def hexDigit (n : Nat) : Char := Nat.digitChar (n % 16)

/-- A character within quotes. Quotes, backslashes and control characters are escaped. -/
def escape (c : Char) : List Char :=
  if c = '"' then ['\\', '"']
  else if c = '\\' then ['\\', '\\']
  else if c = '\n' then ['\\', 'n']
  else if c = '\r' then ['\\', 'r']
  else if c = '\t' then ['\\', 't']
  else if c = '\x08' then ['\\', 'b']
  else if c = '\x0c' then ['\\', 'f']
  else if c < ' ' then ['\\', 'u', '0', '0', hexDigit (c.toNat / 16), hexDigit c.toNat]
  else [c]

/-- A text within quotes. -/
def quote (cs : List Char) : List Char := '"' :: cs.flatMap escape ++ ['"']

/-- Exponents that are not negative carry a sign. -/
def numberLayout : Number.Layout where
  exponentPlus := ['+']

/-- The blanks between the parts of a value. -/
structure Spacing where
  /-- What stands in front of an item at the given depth. -/
  lineBreak : Nat → List Char
  /-- What stands between a key and its value. -/
  colon : List Char

/-- Everything on one line. -/
def Spacing.compact : Spacing where
  lineBreak _ := []
  colon := [':']

/-- Every item on a line of its own, two spaces for each level. -/
def Spacing.indented : Spacing where
  lineBreak depth := '\n' :: List.replicate (2 * depth) ' '
  colon := [':', ' ']

mutual

/-- The text of a value that stands at the given depth. -/
def written (spacing : Spacing) (depth : Nat) : Json → List Char
  | null => ['n', 'u', 'l', 'l']
  | bool true => ['t', 'r', 'u', 'e']
  | bool false => ['f', 'a', 'l', 's', 'e']
  | number n => n.text numberLayout
  | string s => quote s.toList
  | array [] => ['[', ']']
  | array (item :: items) =>
    '[' :: spacing.lineBreak (depth + 1) ++ item.written spacing (depth + 1) ++
      writtenItems spacing (depth + 1) items ++ spacing.lineBreak depth ++ [']']
  | object [] => ['\x7b', '}']
  | object ((key, value) :: members) =>
    '\x7b' :: spacing.lineBreak (depth + 1) ++ quote key.toList ++ spacing.colon ++
      value.written spacing (depth + 1) ++ writtenMembers spacing (depth + 1) members ++
      spacing.lineBreak depth ++ ['}']

/-- The text of the items after the first, each with the comma in front of it. -/
def writtenItems (spacing : Spacing) (depth : Nat) : List Json → List Char
  | [] => []
  | item :: items =>
    ',' :: spacing.lineBreak depth ++ item.written spacing depth ++
      writtenItems spacing depth items

/-- The text of the members after the first, each with the comma in front of it. -/
def writtenMembers (spacing : Spacing) (depth : Nat) : List (String × Json) → List Char
  | [] => []
  | (key, value) :: members =>
    ',' :: spacing.lineBreak depth ++ quote key.toList ++ spacing.colon ++
      value.written spacing depth ++ writtenMembers spacing depth members

end

/-- The value on one line. -/
def compact (json : Json) : String := String.ofList (json.written .compact 0)

/-- The value with every item on a line of its own. -/
def pretty (json : Json) : String := String.ofList (json.written .indented 0)

end Json

end ApiAnnotation
