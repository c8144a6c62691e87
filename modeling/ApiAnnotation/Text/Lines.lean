import ApiAnnotation.Text.Trim

/-!
# Lines of a text

A line ends at a line feed or at a carriage return directly before one. The last line need not be
ended, and a text that ends in a line feed has no empty line after it. A carriage return anywhere
else belongs to its line.
-/

namespace ApiAnnotation.Text

/-- The line without the carriage return that closes it, if one does. -/
def dropReturn (line : List Char) : List Char :=
  if line.getLast? = some '\r' then line.dropLast else line

/-- The lines of a text cut at its line feeds, the pieces being given: every piece but the last
was ended by a line feed. -/
def linesOfPieces : List (List Char) → List (List Char)
  | [] => []
  | [last] => if last = [] then [] else [last]
  | piece :: next :: rest => dropReturn piece :: linesOfPieces (next :: rest)

/-- The lines of a text, without their ends. -/
def lines (cs : List Char) : List (List Char) := linesOfPieces (cs.splitOn '\n')

/-- Lines joined by line feeds. -/
def joinLines (ls : List (List Char)) : List Char := ['\n'].intercalate ls

end ApiAnnotation.Text
