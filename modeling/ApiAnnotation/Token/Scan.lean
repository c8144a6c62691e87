import ApiAnnotation.Text.Position
import ApiAnnotation.Token.Lexeme

/-!
# The tokens of a source

`ApiAnnotation.Token.scan` cuts a whole source into tokens. The last token stands for the end of the
source.
-/

namespace ApiAnnotation

namespace Lexeme

/-- Whether the token counts when a slash after it is read: white space and closed comments do
not. -/
def isSignificant (lexeme : Lexeme) : Bool :=
  match lexeme.kind with
  | .blanks | .comment _ | .docComment _ => false
  | _ => true

/-- The significant character before the text that is left. -/
def significant (before : Option Char) (lexeme : Lexeme) : Option Char :=
  if lexeme.isSignificant then lexeme.text.getLast? else before

end Lexeme

namespace Token

/-- The tokens of a text that starts at `offset`, the significant character before it being
given. -/
def scanFrom (before : Option Char) (offset : Nat) : List Char → List Token
  | [] => [⟨.endOfSource, offset, offset⟩]
  | c :: cs =>
    let lexeme := Lexeme.first before c cs
    let stop := offset + byteLength lexeme.text
    ⟨lexeme.kind, offset, stop⟩ :: scanFrom (lexeme.significant before) stop lexeme.rest
termination_by cs => cs.length
decreasing_by exact Lexeme.length_rest_first_lt before c cs

/-- The tokens of a source. -/
def scan (source : String) : List Token := scanFrom none 0 source.toList

end Token

end ApiAnnotation
