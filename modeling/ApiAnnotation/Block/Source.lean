import ApiAnnotation.Block.Comment
import ApiAnnotation.Token.Scan

/-!
# The annotation blocks of a source
-/

namespace ApiAnnotation

/-- The block of a token, if the token is a doc comment. -/
def Block.ofToken? (t : Token) : Option Block :=
  match t.kind with
  | .docComment body => some { Block.ofComment body with span := some t.span }
  | _ => none

/-- The annotation blocks of a source: its doc comments, in their order. -/
def Block.ofSource (source : String) : List Block :=
  (Token.scan source).filterMap Block.ofToken?

end ApiAnnotation
