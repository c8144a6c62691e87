import ApiAnnotation.Directive
import ApiAnnotation.Text.Lines

/-!
# Reading doc comments

The body of a doc comment is read line by line. A line may start with a gutter: white space, a star
and one space. A line that then starts with `@` and a title opens a directive, which the lines after
it continue; the lines before the first directive are the text of the block.

Reading cannot fail. Text that fits nothing ends up in a description.

## Main definitions

* `ApiAnnotation.Directive.ofChunk`: reads one directive with its lines.
* `ApiAnnotation.Block.ofComment`: reads the body of a doc comment.
-/

namespace ApiAnnotation

/-- Whether a character may stand in a title. -/
def isTitleChar (c : Char) : Bool := c.isAlphanum || c == '_'

/-- Whether directives of a title take a name. -/
def takesName (title : String) : Bool :=
  ["param", "arg", "argument", "property", "prop", "typedef"].contains title

/-- Whether directives of a title take a type. -/
def takesType (title : String) : Bool :=
  takesName title || title = "returns" || title = "return"

/-! ### Lines -/

/-- The line without its gutter. -/
def stripGutter (line : List Char) : List Char :=
  Text.dropLeading ' ' (Text.dropLeading '*' (Text.trimStart line))

/-- Whether a line, its gutter taken off, opens a directive. -/
def isTagLine (line : List Char) : Bool :=
  match Text.trimStart line with
  | '@' :: c :: _ => isTitleChar c
  | _ => false

/-- Lines cut before every line that opens a directive: the lines in front, and one chunk for
each directive. -/
def chunks : List (List Char) → List (List Char) × List (List (List Char))
  | [] => ([], [])
  | line :: lines =>
    let (front, rest) := chunks lines
    if isTagLine line then ([], (Text.trimStart line :: front) :: rest) else (line :: front, rest)

/-! ### Directives -/

/-- The text up to the brace that closes the open one, with `depth` more braces open within it, and
the text after that brace. -/
def untilClosed? (depth : Nat) : List Char → Option (List Char × List Char)
  | [] => none
  | c :: cs =>
    let inner (depth : Nat) :=
      (untilClosed? depth cs).map fun (inside, after) => (c :: inside, after)
    if c = '\x7b' then inner (depth + 1)
    else if c = '}' then
      match depth with
      | 0 => some ([], cs)
      | depth + 1 => inner depth
    else inner depth

/-- A type in braces at the front of a text, trimmed, and the text after it. -/
def braced? : List Char → Option (List Char × List Char)
  | [] => none
  | c :: cs =>
    if c = '\x7b' then (untilClosed? 0 cs).map fun (inside, after) => (Text.trim inside, after)
    else none

/-- Whether a type is a plain name: segments of letters, digits, `_` and `$` joined by dots. -/
def isNamePath (cs : List Char) : Bool :=
  (cs.splitOn '.').all fun segment =>
    segment ≠ [] && segment.all fun c => isTitleChar c || c == '$'

/-- The type written in braces. -/
def TypeExpr.ofText (cs : List Char) : TypeExpr where
  name := if isNamePath cs then some (String.ofList cs) else none

/-- A description without the dash in front, where white space follows the dash. -/
def stripDash : List Char → List Char
  | '-' :: c :: cs => if isBlank c then cs else '-' :: c :: cs
  | cs => cs

/-- Takes the type off the text after a title, if the title takes one and one is written. -/
def takeType (title : String) (cs : List Char) : Option TypeExpr × List Char :=
  match if takesType title then braced? (Text.trimStart cs) else none with
  | some (inside, after) => (some (TypeExpr.ofText inside), after)
  | none => (none, cs)

/-- Takes the name off the text after a title and a type, if the title takes one. -/
def takeName (title : String) (cs : List Char) : List Char × List Char :=
  if takesName title then
    let cs := Text.trimStart cs
    (cs.takeWhile (!isBlank ·), cs.dropWhile (!isBlank ·))
  else ([], cs)

/-- Reads the text of a directive: the title after the `@`, then, for titles that take them, a type
in braces and a name, and then the description. -/
def Directive.ofText (text : List Char) : Directive :=
  let text := Text.dropLeading '@' text
  let title := String.ofList (text.takeWhile isTitleChar)
  let (type, afterType) := takeType title (text.dropWhile isTitleChar)
  let (name, afterName) := takeName title afterType
  { title, type
    name := String.ofList name
    description := String.ofList (stripDash (Text.trim afterName)) }

/-- Reads a directive with the lines that continue it. -/
def Directive.ofChunk (chunk : List (List Char)) : Directive :=
  Directive.ofText (Text.joinLines chunk)

/-! ### Blocks -/

/-- Reads the body of a doc comment, the text between `/**` and `*/`. -/
def Block.ofComment (body : String) : Block :=
  let (front, rest) := chunks ((Text.lines body.toList).map stripGutter)
  { description := String.ofList (Text.trim (Text.joinLines front))
    directives := rest.map Directive.ofChunk }

end ApiAnnotation
