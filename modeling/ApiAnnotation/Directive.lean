/-!
# Directives and annotation blocks

An annotation block is one doc comment: a free text and an ordered list of directives, the `@…`
lines of the comment. A directive may carry a type, a name and a description.
-/

namespace ApiAnnotation

/-- The type written at a directive, such as `{Pet.model}`. Only a plain name, possibly dotted, is
kept; a composite type has no name. -/
structure TypeExpr where
  /-- The name as written. -/
  name : Option String := none
deriving DecidableEq, Repr, Inhabited

/-- The name of a type, an empty one counting as none. -/
def TypeExpr.usableName? (t : TypeExpr) : Option String :=
  t.name.filter (· ≠ "")

/-- One directive of an annotation block. -/
structure Directive where
  /-- The word after the `@`. -/
  title : String
  /-- The name that follows, for titles that take one. -/
  name : String := ""
  /-- The type in braces. -/
  type : Option TypeExpr := none
  /-- The text that follows. -/
  description : String := ""
deriving DecidableEq, Repr, Inhabited

/-- A range of bytes of a text. -/
structure Span where
  /-- The offset of the first byte. -/
  offset : Nat
  /-- The number of bytes. -/
  length : Nat
deriving DecidableEq, Repr

/-- An annotation block: one doc comment. -/
structure Block where
  /-- The text before the first directive. -/
  description : String := ""
  /-- The directives, in the order of the comment. -/
  directives : List Directive := []
  /-- Where the comment stands in its source, when it was taken from one. -/
  span : Option Span := none
deriving DecidableEq, Repr, Inhabited

/-- A block takes part in the document if it has a directive. -/
def Block.isSignificant (block : Block) : Bool := !block.directives.isEmpty

end ApiAnnotation
