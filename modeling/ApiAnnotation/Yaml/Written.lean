import ApiAnnotation.Json.Written
import ApiAnnotation.Text.Position
import ApiAnnotation.Yaml.Character
import ApiAnnotation.Yaml.Scalar

/-!
# Writing YAML

Values are written in block style. Maps are indented by two columns, lists stand below their key
without indentation, and no line is folded. A text is written plainly if it reads back as itself;
otherwise it is quoted, or written as a literal block if it has several lines.

## Main definition

* `ApiAnnotation.Yaml.written`: the text of a value.
-/

namespace ApiAnnotation

namespace Yaml

/-! ### What a text allows -/

/-- Whether two neighbours in a text satisfy a condition. -/
def anyPair (p : Char → Char → Bool) : List Char → Bool
  | a :: b :: cs => p a b || anyPair p (b :: cs)
  | _ => false

/-- Whether a character starts something else when it comes first. -/
def isIndicator (c : Char) : Bool :=
  "#,[]&*!|>\"%@\x60\x7b\x7d".toList.contains c || c = '\''

/-- Whether a text starts like something else than a plain scalar. -/
def startsLikeSyntax : List Char → Bool
  | [] => false
  | c :: cs =>
    isIndicator c || ((c = '?' || c = ':' || c = '-') && atGap cs)

/-- Whether what follows the first character of a text ends a plain scalar: a colon before a gap,
or a number sign after one. -/
def endsWithin : List Char → Bool
  | [] => false
  | [_] => false
  | a :: b :: cs =>
    (b = ':' && atGap cs) || (b = '#' && isGap a) || endsWithin (b :: cs)

/-- Whether a text starts like a line between documents. -/
def startsLikeMarker (cs : List Char) : Bool :=
  ['-', '-', '-'].isPrefixOf cs || ['.', '.', '.'].isPrefixOf cs

/-- Whether a text has a space or a line break at an end. -/
def hasLooseEnd (cs : List Char) : Bool :=
  let loose (c : Char) : Bool := c = ' ' || isBreak c
  (cs.head?.map loose).getD false || (cs.getLast?.map loose).getD false

/-- Whether a text can only be written with escapes. -/
def needsEscapes (cs : List Char) : Bool :=
  cs.any (!isPrintable ·) || anyPair (fun a b => a = ' ' && isBreak b) cs

/-- Whether a text can be written plainly. -/
def allowsPlain (cs : List Char) : Bool :=
  !(hasLooseEnd cs || needsEscapes cs || cs.any isBreak || startsLikeMarker cs ||
    startsLikeSyntax cs || endsWithin cs)

/-- Whether a text can be written between single quotes. -/
def allowsSingle (cs : List Char) : Bool :=
  !(needsEscapes cs || anyPair (fun a b => isBreak a && b = ' ') cs)

/-- Whether a text can be written as a literal block. -/
def allowsLiteral (cs : List Char) : Bool :=
  !(needsEscapes cs || cs.getLast? = some ' ')

/-- The ways to write a text. -/
inductive Style where
  /-- As it is. -/
  | plain
  /-- Between single quotes. -/
  | single
  /-- Between double quotes, with escapes. -/
  | double
  /-- As a block of lines. -/
  | literal
deriving DecidableEq, Repr

/-- The style in which a text is written: the first of those it allows, starting with a literal
block if it has several lines and with quotes if it would read back as something else. -/
def styleOf (s : String) : Style :=
  let cs := s.toList
  if cs.contains '\n' then if allowsLiteral cs then .literal else .double
  else if meaning s = .text && !isZeroLed cs && allowsPlain cs then .plain
  else if allowsSingle cs then .single
  else .double

/-! ### Texts -/

/-- Spaces. -/
def spaces (n : Nat) : List Char := List.replicate n ' '

/-- Lines, each indented when its first character is written. -/
def indentLines (indent : Nat) : Bool → List Char → List Char
  | _, [] => []
  | start, c :: cs =>
    if isBreak c then c :: indentLines indent true cs
    else (if start then spaces indent else []) ++ c :: indentLines indent false cs

/-- A text between single quotes. -/
def singleQuoted (indent : Nat) (cs : List Char) : List Char :=
  let body := cs.flatMap fun c => if c = '\'' then ['\'', '\''] else [c]
  '\'' :: indentLines indent false body ++
    (if (cs.getLast?.map isBreak).getD false then spaces indent else []) ++ ['\'']

/-- The letters that stand for characters after a backslash. -/
def escapes : List (Nat × Char) :=
  [(0x00, '0'), (0x07, 'a'), (0x08, 'b'), (0x09, 't'), (0x0A, 'n'), (0x0B, 'v'), (0x0C, 'f'),
    (0x0D, 'r'), (0x1B, 'e'), (0x22, '"'), (0x5C, '\\'), (0x85, 'N'), (0xA0, '_'), (0x2028, 'L'),
    (0x2029, 'P')]

/-- The last `width` digits of a number in base sixteen, letters being capital. -/
def hexDigits (width n : Nat) : List Char :=
  match width with
  | 0 => []
  | width + 1 => hexDigits width (n / 16) ++ [(Nat.digitChar (n % 16)).toUpper]

/-- A character between double quotes. -/
def escape (c : Char) : List Char :=
  if isPrintable c && !isBreak c && c ≠ '"' && c ≠ '\\' then [c]
  else
    let n := c.toNat
    '\\' :: match escapes.lookup n with
      | some letter => [letter]
      | none =>
        if n ≤ 0xFF then 'x' :: hexDigits 2 n
        else if n ≤ 0xFFFF then 'u' :: hexDigits 4 n
        else 'U' :: hexDigits 8 n

/-- A text between double quotes. -/
def doubleQuoted (cs : List Char) : List Char := '"' :: cs.flatMap escape ++ ['"']

/-- What the first line of a literal block says about the breaks at the end of the text: all but one
are dropped unless there is none, or only breaks are kept. -/
def chomping (cs : List Char) : List Char :=
  match cs.reverse with
  | [] => ['-']
  | [c] => if isBreak c then ['+'] else ['-']
  | c :: d :: _ => if !isBreak c then ['-'] else if isBreak d then ['+'] else []

/-- A text as a literal block. -/
def literal (indent : Nat) (cs : List Char) : List Char :=
  let hint := if (cs.head?.map fun c => c = ' ' || isBreak c).getD false then ['2'] else []
  '|' :: hint ++ chomping cs ++ '\n' :: indentLines indent true cs

/-- A text, its further lines being indented. -/
def writtenText (indent : Nat) (s : String) : List Char :=
  match styleOf s with
  | .plain => s.toList
  | .single => singleQuoted indent s.toList
  | .double => doubleQuoted s.toList
  | .literal => literal indent s.toList

/-! ### Values -/

/-- Exponents have a sign only if they are negative. -/
def numberLayout : Number.Layout where
  exponentPlus := []

/-- A line, ended if it is not ended already. -/
def endLine (cs : List Char) : List Char :=
  if (cs.getLast?.map isBreak).getD false then cs else cs ++ ['\n']

/-- The greatest size of a key that stands before its colon. -/
def maxKeySize : Nat := 128

/-- Whether a key stands before its colon. Others are written behind a question mark. -/
def isSimpleKey (key : String) : Bool :=
  !key.toList.any isBreak && byteLength key.toList ≤ maxKeySize

/-- A value on one line, or as a text of several; `none` for lists and maps that are not empty. -/
def writtenFlat? (indent : Nat) : Json → Option (List Char)
  | .null => some ['n', 'u', 'l', 'l']
  | .bool true => some ['t', 'r', 'u', 'e']
  | .bool false => some ['f', 'a', 'l', 's', 'e']
  | .number n => some (n.text numberLayout)
  | .string s => some (writtenText indent s)
  | .array [] => some ['[', ']']
  | .object [] => some ['\x7b', '}']
  | _ => none

mutual

/-- A value that starts at the current column, which is the given indentation. Its lines are ended.
-/
def block (indent : Nat) (json : Json) : List Char :=
  match json with
  | .array (item :: items) => blockItems indent true (item :: items)
  | .object (member :: members) => blockMembers indent true (member :: members)
  | json => endLine ((writtenFlat? indent json).getD [])

/-- The items of a list, the first one without indentation if it continues a line. -/
def blockItems (indent : Nat) (first : Bool) : List Json → List Char
  | [] => []
  | item :: items =>
    (if first then [] else spaces indent) ++ '-' :: ' ' :: block (indent + 2) item ++
      blockItems indent false items

/-- The members of a map, the first one without indentation if it continues a line. -/
def blockMembers (indent : Nat) (first : Bool) : List (String × Json) → List Char
  | [] => []
  | (key, value) :: members =>
    let keyText := writtenText (indent + 2) key
    let entry :=
      if !isSimpleKey key then
        '?' :: ' ' :: endLine keyText ++ spaces indent ++ ':' :: ' ' :: block (indent + 2) value
      else keyText ++ ':' :: afterColon indent value
    (if first then [] else spaces indent) ++ entry ++ blockMembers indent false members

/-- The value after the colon of a key at the given indentation. -/
def afterColon (indent : Nat) (json : Json) : List Char :=
  match json with
  | .array (item :: items) => '\n' :: spaces indent ++ blockItems indent true (item :: items)
  | .object (member :: members) =>
    '\n' :: spaces (indent + 2) ++ blockMembers (indent + 2) true (member :: members)
  | json => endLine (' ' :: (writtenFlat? (indent + 2) json).getD [])

end

/-- The text of a value. -/
def written (json : Json) : String := String.ofList (block 0 json)

end Yaml

end ApiAnnotation
