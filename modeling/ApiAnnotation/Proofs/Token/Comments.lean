import ApiAnnotation.Proofs.Text.Lines
import ApiAnnotation.Proofs.Token.Concat

/-!
# Block comments

A comment in a source is one token whatever follows it, since it ends with its own mark. And it is
not significant, so a slash after it is judged as if the comment were not there.

A plain comment must not start with a star, and a doc comment not with a slash, or else the one
would be the other (`/**/` is a plain comment); and a comment with the closing mark in it ends
there.

## Main statements

* `ApiAnnotation.Token.IsBlockComment.scanFrom_append`: a comment is one token, and has no effect on
  the tokens after it.
-/

namespace ApiAnnotation

namespace Lexeme

variable {body : List Char}

/-- A comment ends at its closing mark, whatever follows. -/
theorem closedComment_of_not_infix (hbody : ¬['*', '/'] <:+: body) (opening : List Char)
    (kind : List Char → Token.Kind) (more : List Char) :
    closedComment opening kind (body ++ ['*', '/'] ++ more) =
      ⟨kind body, opening ++ body ++ ['*', '/'], more⟩ := by
  have hfirst : ¬['*', '/'] <:+: body ++ ['*'] :=
    Text.not_infix_pair_append hbody (by decide) (Or.inr (by decide))
  rw [closedComment, (Text.cutAt?_eq_some_iff (by simp)).mpr ⟨rfl, hfirst⟩]

theorem first_plainComment (before : Option Char) (hbody : ¬['*', '/'] <:+: body)
    (hstar : body.head? ≠ some '*') (more : List Char) :
    first before '/' ('*' :: (body ++ ['*', '/'] ++ more)) =
      ⟨.comment (String.ofList (Text.trim body)), ['/', '*'] ++ body ++ ['*', '/'], more⟩ := by
  have hclosed := closedComment_of_not_infix hbody ['/', '*']
    (fun body => .comment (String.ofList (Text.trim body))) more
  refine Eq.trans ?_ hclosed
  rcases body with _ | ⟨d, body⟩
  · rfl
  · exact blockComment_of_ne_star (by simpa using hstar) _

theorem first_docComment (before : Option Char) (hbody : ¬['*', '/'] <:+: body)
    (hslash : body.head? ≠ some '/') (more : List Char) :
    first before '/' ('*' :: '*' :: (body ++ ['*', '/'] ++ more)) =
      ⟨.docComment (String.ofList body), ['/', '*', '*'] ++ body ++ ['*', '/'], more⟩ := by
  have hclosed := closedComment_of_not_infix hbody ['/', '*', '*']
    (fun body => .docComment (String.ofList body)) more
  refine Eq.trans ?_ hclosed
  rcases body with _ | ⟨d, body⟩
  · exact blockComment_star (show '*' ≠ '/' by decide) ('/' :: more)
  · exact blockComment_star (by simpa using hslash) _

end Lexeme

namespace Token

/-- **Block comments**, with what is read of them. -/
inductive IsBlockComment : String → Kind → Prop
  /-- A plain comment. -/
  | plain {body : String} : ¬['*', '/'] <:+: body.toList → body.toList.head? ≠ some '*' →
    IsBlockComment ("/*" ++ body ++ "*/") (.comment (String.ofList (Text.trim body.toList)))
  /-- A doc comment. -/
  | doc {body : String} : ¬['*', '/'] <:+: body.toList → body.toList.head? ≠ some '/' →
    IsBlockComment ("/**" ++ body ++ "*/") (.docComment body)

variable {comment : String} {kind : Kind}

/-- A comment starts with no white space. -/
theorem IsBlockComment.isBlank_head (h : IsBlockComment comment kind) (more : List Char) :
    ∀ d ∈ (comment.toList ++ more).head?, isBlank d = false := by
  intro d hd
  cases h with
  | plain | doc =>
    simp only [String.toList_append] at hd
    obtain rfl : '/' = d := by simpa using hd
    decide

/-- **A comment is one token, and has no effect on the tokens after it.** -/
theorem IsBlockComment.scanFrom_append (h : IsBlockComment comment kind) (before : Option Char)
    (offset : Nat) (more : List Char) :
    scanFrom before offset (comment.toList ++ more) =
      ⟨kind, offset, offset + comment.utf8ByteSize⟩ ::
        scanFrom before (offset + comment.utf8ByteSize) more := by
  rw [← byteLength_toList]
  cases h with
  | @plain body hbody hstar =>
    have htext : ("/*" ++ body ++ "*/").toList = ['/', '*'] ++ body.toList ++ ['*', '/'] := by simp
    have hmore : ['/', '*'] ++ body.toList ++ ['*', '/'] ++ more =
      '/' :: '*' :: (body.toList ++ ['*', '/'] ++ more) := by simp
    rw [htext, hmore, scanFrom_cons, Lexeme.first_plainComment before hbody hstar]
    rfl
  | @doc body hbody hslash =>
    have htext : ("/**" ++ body ++ "*/").toList = ['/', '*', '*'] ++ body.toList ++ ['*', '/'] := by
      simp
    have hmore : ['/', '*', '*'] ++ body.toList ++ ['*', '/'] ++ more =
      '/' :: '*' :: '*' :: (body.toList ++ ['*', '/'] ++ more) := by simp
    rw [htext, hmore, scanFrom_cons, Lexeme.first_docComment before hbody hslash,
      String.ofList_toList]
    rfl

end Token

end ApiAnnotation
