import ApiAnnotation.Proofs.Token.Comments
import ApiAnnotation.Proofs.Token.Front
import ApiAnnotation.Proofs.Token.Literals
import ApiAnnotation.Proofs.Token.Returns
import Mathlib.Data.List.Forall2

/-!
# Doc comments written anew

The doc comments of a source can be written anew, and the other tokens stay as they are. A token
ends where it did since the text after it starts as it did: it starts with the token that comes
next, and a doc comment goes on starting with a slash. And no slash is read otherwise, as comments
are not significant.

## Main statements

* `ApiAnnotation.Lexeme.forall₂_kind_ofText`: the tokens of a source with doc comments written anew.
-/

namespace ApiAnnotation

/-- **The body of a doc comment**: it does not hold the closing mark, nor does it make one of the
opening. -/
def IsDocBody (body : List Char) : Prop := ¬['*', '/'] <:+: body ∧ body.head? ≠ some '/'

instance (body : List Char) : Decidable (IsDocBody body) :=
  inferInstanceAs (Decidable (¬['*', '/'] <:+: body ∧ body.head? ≠ some '/'))

/-- **Kinds of tokens, doc comments being written anew**: any kind is itself, or the body of a doc
comment is replaced by a related one. -/
inductive Token.Kind.Rewritten (R : String → String → Prop) : Token.Kind → Token.Kind → Prop
  /-- The kind is the same. -/
  | same (kind : Token.Kind) : Rewritten R kind kind
  /-- The body is a related one. -/
  | doc {body body' : String} : R body body' → Rewritten R (docComment body) (docComment body')

namespace Lexeme

variable {R : String → String → Prop} {before : Option Char} {c : Char} {cs text more : List Char}
  {body : String}

/-- **The text of a token, doc comments being written anew.** -/
inductive Rewritten (R : String → String → Prop) (l : Lexeme) : List Char → Prop
  /-- The text is the same. -/
  | same : Rewritten R l l.text
  /-- The body is a related one. -/
  | doc {body body' : String} : l.kind = .docComment body → R body body' →
    Rewritten R l (['/', '*', '*'] ++ body'.toList ++ ['*', '/'])

/-- The body of a doc comment is one. -/
theorem isDocBody_of_kind (h : (first before c cs).kind = .docComment body) :
    c = '/' ∧ IsDocBody body.toList := by
  have hreads := reads_first before c cs
  rw [h] at hreads
  obtain ⟨htext, hmark⟩ := hreads
  have hwhole := text_append_rest_first before c cs
  rw [htext] at hwhole
  obtain ⟨rfl, hcs⟩ := List.cons.inj hwhole
  refine ⟨rfl, hmark, fun hslash => ?_⟩
  -- a slash right after the stars closes a plain comment
  obtain ⟨tail, htail⟩ := List.head?_eq_some_iff.mp hslash
  rw [htail] at hcs
  rw [← hcs] at h
  rcases kind_closedComment ['/', '*'] (fun body => .comment (String.ofList (Text.trim body)))
    ('*' :: '/' :: (tail ++ ['*', '/'] ++ (first before '/' cs).rest)) with hopen | ⟨text, hclosed⟩
  · cases hopen.symm.trans h
  · cases hclosed.symm.trans h

/-- The text of a token starts as it did. -/
theorem Rewritten.head? (h : Rewritten R (first before c cs) text) : text.head? = some c := by
  cases h with
  | same => exact head?_text_first before c cs
  | doc hkind _ =>
    obtain ⟨rfl, -⟩ := isDocBody_of_kind hkind
    rfl

/-- So does a whole text. -/
theorem head?_flatten {texts : List (List Char)}
    (h : List.Forall₂ (Rewritten R) (ofText before cs) texts) : texts.flatten.head? = cs.head? := by
  rcases cs with _ | ⟨c, cs⟩
  · rw [ofText] at h
    obtain rfl := List.forall₂_nil_left_iff.mp h
    rfl
  · rw [ofText] at h
    obtain ⟨text, rest, htext, -, rfl⟩ := List.forall₂_cons_left_iff.mp h
    rw [List.flatten_cons, List.head?_append, htext.head?]
    rfl

/-- **A token ends where it did** if the text after it starts as it did. -/
theorem first_of_head?_rest (h : more.head? = (first before c cs).rest.head?) :
    ∃ front, (first before c cs).text = c :: front ∧
      first before c (front ++ more) = { first before c cs with rest := more } := by
  obtain ⟨front, htext⟩ := List.head?_eq_some_iff.mp (head?_text_first before c cs)
  refine ⟨front, htext, ?_⟩
  have hwhole := text_append_rest_first before c cs
  rw [htext, List.cons_append, List.cons_inj_right] at hwhole
  rcases hrest : (first before c cs).rest with _ | ⟨d, rest⟩
  · rw [hrest] at h hwhole
    obtain rfl := List.head?_eq_none_iff.mp h
    rw [hwhole, ← hrest]
  · -- the first character after the token tells where it ends
    rw [hrest] at h hwhole
    obtain ⟨other, rfl⟩ := List.head?_eq_some_iff.mp h
    rw [← hwhole, List.append_cons] at hrest ⊢
    rw [List.append_cons front d rest]
    exact first_append_of_rest (List.cons_ne_nil d []) hrest other

/-- **A token with its doc comment written anew is cut off as it was**, if what follows starts as it
did. -/
theorem Rewritten.first (hR : ∀ {body body'}, R body body' → IsDocBody body.toList →
      IsDocBody body'.toList)
    (h : Rewritten R (first before c cs) text)
    (hmore : more.head? = (first before c cs).rest.head?) :
    ∃ c' cs' kind, text ++ more = c' :: cs' ∧
      Lexeme.first before c' cs' = ⟨kind, text, more⟩ ∧
      (Lexeme.first before c' cs').significant before = (first before c cs).significant before ∧
      Token.Kind.Rewritten R (first before c cs).kind kind := by
  cases h with
  | same =>
    obtain ⟨front, htext, hfirst⟩ := first_of_head?_rest hmore
    refine ⟨c, front ++ more, _, by rw [htext]; rfl, hfirst, ?_, .same _⟩
    rw [hfirst]
    rfl
  | @doc body body' hkind hbody =>
    obtain ⟨rfl, hdoc⟩ := isDocBody_of_kind hkind
    obtain ⟨hmark, hslash⟩ := hR hbody hdoc
    refine ⟨'/', '*' :: '*' :: (body'.toList ++ ['*', '/'] ++ more), .docComment body', by simp, ?_,
      ?_, ?_⟩
    · rw [first_docComment before hmark hslash, String.ofList_toList]
    · rw [first_docComment before hmark hslash, significant, significant, isSignificant,
        isSignificant, hkind]
      rfl
    · rw [hkind]
      exact .doc hbody

/-- **The tokens of a text with doc comments written anew** are of the same kinds, but for the
bodies of these comments. -/
theorem forall₂_kind_ofText (hR : ∀ {body body'}, R body body' → IsDocBody body.toList →
      IsDocBody body'.toList)
    (before : Option Char) (cs : List Char) :
    ∀ texts, List.Forall₂ (Rewritten R) (ofText before cs) texts →
      List.Forall₂ (Token.Kind.Rewritten R) ((ofText before cs).map (·.kind))
        ((ofText before texts.flatten).map (·.kind)) := by
  fun_induction ofText before cs with
  | case1 before =>
    intro texts h
    obtain rfl := List.forall₂_nil_left_iff.mp h
    rw [List.flatten_nil, ofText]
    exact .nil
  | case2 before c cs lexeme ih =>
    intro texts h
    obtain ⟨text, rest, htext, hrest, rfl⟩ := List.forall₂_cons_left_iff.mp h
    obtain ⟨c', cs', kind, hcs', hfirst, hsignificant, hkind⟩ :=
      htext.first hR (head?_flatten hrest)
    have hnext := ih rest hrest
    rw [List.flatten_cons, hcs', ofText, List.map_cons, List.map_cons, hsignificant, hfirst]
    exact .cons hkind hnext

end Lexeme

end ApiAnnotation
