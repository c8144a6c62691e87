/-!
# Positions in a text

Offsets count the bytes of the UTF-8 form. `ApiAnnotation.place` turns an offset into the line and
the column at which a reader finds it.
-/

namespace ApiAnnotation

/-- The number of bytes of a text in UTF-8. -/
def byteLength : List Char → Nat
  | [] => 0
  | c :: cs => c.utf8Size + byteLength cs

@[simp] theorem byteLength_nil : byteLength [] = 0 := rfl

@[simp] theorem byteLength_cons (c : Char) (cs : List Char) :
    byteLength (c :: cs) = c.utf8Size + byteLength cs := rfl

@[simp] theorem byteLength_append (cs ds : List Char) :
    byteLength (cs ++ ds) = byteLength cs + byteLength ds := by
  induction cs with
  | nil => simp
  | cons c cs ih => simp [ih, Nat.add_assoc]

/-- A place in a text: line and column, both counted from one. The column counts characters. -/
structure Place where
  /-- The line. -/
  line : Nat
  /-- The column within the line. -/
  column : Nat
deriving DecidableEq, Repr

/-- The characters of a text that begin before the given offset. -/
def beginningBefore : Nat → List Char → List Char
  | _, [] => []
  | 0, _ => []
  | offset + 1, c :: cs => c :: beginningBefore (offset + 1 - c.utf8Size) cs

/-- The place just after a text: its line feeds are counted, and the characters after the last
of them. -/
def Place.after (cs : List Char) : Place where
  line := cs.count '\n' + 1
  column := (cs.reverse.takeWhile (· != '\n')).length + 1

/-- The place of a byte offset in a text. An offset inside a character stands at the next
character, and one beyond the end at the end. -/
def place (text : String) (offset : Nat) : Place :=
  Place.after (beginningBefore offset text.toList)

end ApiAnnotation
