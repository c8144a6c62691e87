import ApiAnnotation.Text.Position
import ApiAnnotation.Yaml.Character

/-!
# Cursors

A cursor is a place in a text: what is left of it, and where that stands. Lines and columns count
from zero; a column is a number of characters, while the place in the whole text is one of bytes.
-/

namespace ApiAnnotation

namespace Yaml

/-- A place in a text. -/
structure Cursor where
  /-- The text that is left. -/
  rest : List Char
  /-- The number of bytes before it. -/
  index : Nat := 0
  /-- The line. -/
  line : Nat := 0
  /-- The column within the line. -/
  column : Nat := 0
deriving Repr

namespace Cursor

/-- Passes over characters of the line. -/
def advance (n : Nat) (c : Cursor) : Cursor :=
  { c with
    rest := c.rest.drop n
    index := c.index + byteLength (c.rest.take n)
    column := c.column + n }

/-- Passes over all characters of the line up to the given rest of the text. -/
def advanceTo (rest : List Char) (c : Cursor) : Cursor :=
  c.advance (c.rest.length - rest.length)

/-- Passes over the characters of the line that satisfy a condition. -/
def dropWhile (p : Char → Bool) (c : Cursor) : Cursor :=
  c.advance (c.rest.takeWhile p).length

/-- Passes over the rest of the line. -/
def dropLine (c : Cursor) : Cursor := c.dropWhile (!isBreak ·)

/-- Whether the text goes on with the given one. -/
def startsWith (mark : List Char) (c : Cursor) : Bool := mark.isPrefixOf c.rest

/-- Whether the cursor stands at a line break. -/
def atBreak (c : Cursor) : Bool := (c.rest.head?.map isBreak).getD false

/-- Whether the cursor stands at a line break or at the end of the text. -/
def atLineEnd (c : Cursor) : Bool := (c.rest.head?.map isBreak).getD true

/-- The start of the next line, the break being `n` characters long. -/
def nextLine (n : Nat) (c : Cursor) : Cursor :=
  { rest := c.rest.drop n
    index := c.index + byteLength (c.rest.take n)
    line := c.line + 1
    column := 0 }

/-- Passes over a line break, if the cursor stands at one. Gives the text it counts for: a line
feed, unless it is one of the separators that count for themselves. -/
def takeBreak (c : Cursor) : List Char × Cursor :=
  match c.rest with
  | '\r' :: '\n' :: _ => (['\n'], c.nextLine 2)
  | x :: _ =>
    if x = '\r' || x = '\n' || x.toNat = 0x85 then (['\n'], c.nextLine 1)
    else if isBreak x then ([x], c.nextLine 1)
    else ([], c)
  | [] => ([], c)

/-- Whether the cursor stands at a line between documents: three dashes or three dots. -/
def atMarker (mark : List Char) (c : Cursor) : Bool :=
  c.column = 0 && c.startsWith mark && atGap (c.rest.drop 3)

/-- Whether the cursor stands at the start of a document. -/
def atDocumentStart (c : Cursor) : Bool := c.atMarker ['-', '-', '-']

/-- Whether the cursor stands at the end of a document. -/
def atDocumentEnd (c : Cursor) : Bool := c.atMarker ['.', '.', '.']

end Cursor

/-! ### Gaps -/

/-- What stands between two words of a scalar. What is collected one character at a time is kept
with the last one first. -/
structure Gap where
  /-- Spaces and tabs before any line break, the last one first. -/
  spacing : List Char := []
  /-- Whether there is a line break. -/
  broken : Bool := false
  /-- The first line break. -/
  first : List Char := []
  /-- The further line breaks, the last one first. -/
  more : List Char := []

namespace Gap

/-- The text that a gap counts for: a single line break is a space, and of several the first is
dropped. -/
def text (gap : Gap) : List Char :=
  if !gap.broken then gap.spacing.reverse
  else if gap.first = ['\n'] then if gap.more = [] then [' '] else gap.more.reverse
  else gap.first ++ gap.more.reverse

/-- Passes over the spaces, tabs and line breaks of a gap, at most the given number of them. -/
def takeUpTo? (indent : Int) : Nat → Gap → Cursor → Option (Gap × Cursor)
  | 0, gap, c => some (gap, c)
  | fuel + 1, gap, c =>
    match c.rest with
    | [] => some (gap, c)
    | x :: _ =>
      if isSpacing x then
        if gap.broken && c.column < indent && x = '\t' then none
        else
          let gap := if gap.broken then gap else { gap with spacing := x :: gap.spacing }
          takeUpTo? indent fuel gap (c.advance 1)
      else if isBreak x then
        let (text, c) := c.takeBreak
        let gap :=
          if gap.broken then { gap with more := text ++ gap.more }
          else { gap with broken := true, first := text }
        takeUpTo? indent fuel gap c
      else some (gap, c)

/-- Passes over a gap. Once a line is broken, a tab before the given column is refused. -/
def take? (indent : Int) (gap : Gap) (c : Cursor) : Option (Gap × Cursor) :=
  gap.takeUpTo? indent (c.rest.takeWhile isGap).length c

end Gap

end Yaml

end ApiAnnotation
