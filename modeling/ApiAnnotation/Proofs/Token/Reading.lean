import ApiAnnotation.Proofs.Text.Cut
import ApiAnnotation.Token.Scan

/-!
# What a token says about its text

A token carries some of its text along: the body of a comment, the content of a literal.
`ApiAnnotation.Token.Kind.Reads` is what a kind says about the text of its token and, where the end
of the token depends on it, about the text that follows. Whatever token is cut off the front of a
text, what it says is true (`ApiAnnotation.Lexeme.reads_first`).
-/

namespace ApiAnnotation

namespace Token.Kind

/-- **What a token says** about its own text and the text after it. -/
def Reads (text after : List Char) : Token.Kind → Prop
  | endOfSource => text = [] ∧ after = []
  | blanks => (∀ c ∈ text, isBlank c = true) ∧ ∀ c ∈ after.head?, isBlank c = false
  | docComment body =>
    text = ['/', '*', '*'] ++ body.toList ++ ['*', '/'] ∧ ¬['*', '/'] <:+: body.toList
  | comment content =>
    (∃ raw, text = ['/', '/'] ++ raw ∧ '\n' ∉ raw ∧ (∀ c ∈ after.head?, c = '\n') ∧
      content = String.ofList (Text.trim raw)) ∨
    ∃ raw, text = ['/', '*'] ++ raw ++ ['*', '/'] ∧ ¬['*', '/'] <:+: raw ∧
      content = String.ofList (Text.trim raw)
  | stringLiteral content =>
    ∃ quote, Lexeme.isQuote quote = true ∧ text = [quote] ++ content.toList ++ [quote]
  | regexLiteral pattern =>
    ∃ flags, text = ['/'] ++ pattern.toList ++ ['/'] ++ flags ∧ ∀ c ∈ flags, isAlphanumeric c = true
  | openComment => ['/', '*'] <+: text ∧ after = []
  | code => text ≠ []
  | openString => ∃ quote ∈ text.head?, Lexeme.isQuote quote = true

variable {text after : List Char}

/-- A token with a text is not the end of the source. -/
theorem Reads.ne_endOfSource {kind : Token.Kind} (h : kind.Reads text after) (htext : text ≠ []) :
    kind ≠ endOfSource := by
  rintro rfl
  exact htext h.1

/-- Nothing follows a comment that is not closed. -/
theorem Reads.eq_nil_of_openComment {kind : Token.Kind} (h : kind.Reads text after)
    (hkind : kind = openComment) : after = [] := by
  subst hkind
  exact h.2

/-- The shortest block comment is not a doc comment. -/
theorem Reads.ne_of_docComment {body : String} (h : (docComment body).Reads text after) :
    text ≠ ['/', '*', '*', '/'] := by
  intro htext
  have hlength := congrArg List.length (htext.symm.trans h.1)
  simp at hlength

end Token.Kind

namespace Lexeme

open Token.Kind

/-! ### One kind of token after the other -/

theorem reads_lineComment (cs : List Char) :
    (lineComment cs).kind.Reads (lineComment cs).text (lineComment cs).rest := by
  refine Or.inl ⟨cs.takeWhile (· ≠ '\n'), rfl, fun hmem => ?_, fun c hc => ?_, rfl⟩
  · have hne := List.all_eq_true.mp List.all_takeWhile _ hmem
    simp at hne
  · have hhead := List.head?_dropWhile_not (· ≠ '\n') cs
    have hc : (cs.dropWhile (· ≠ '\n')).head? = some c := hc
    rw [hc] at hhead
    simpa using hhead

/-- A comment that is closed has its end at the first place where one can be. -/
theorem reads_closedComment {opening cs : List Char} {kind : List Char → Token.Kind}
    (hopening : ['/', '*'] <+: opening)
    (hkind : ∀ body after, ¬['*', '/'] <:+: body →
      (kind body).Reads (opening ++ body ++ ['*', '/']) after) :
    (closedComment opening kind cs).kind.Reads (closedComment opening kind cs).text
      (closedComment opening kind cs).rest := by
  rw [closedComment]
  rcases hcut : Text.cutAt? ['*', '/'] cs with _ | ⟨body, rest⟩
  · exact ⟨hopening.trans (List.prefix_append _ _), rfl⟩
  · exact hkind body rest (Text.not_infix_of_cutAt? (by simp) hcut)

theorem reads_blockComment (cs : List Char) :
    (blockComment cs).kind.Reads (blockComment cs).text (blockComment cs).rest := by
  have hplain : ∀ body after, ¬['*', '/'] <:+: body →
      (comment (String.ofList (Text.trim body))).Reads (['/', '*'] ++ body ++ ['*', '/']) after :=
    fun body _ hbody => Or.inr ⟨body, rfl, hbody, rfl⟩
  have hdoc : ∀ body after, ¬['*', '/'] <:+: body →
      (docComment (String.ofList body)).Reads (['/', '*', '*'] ++ body ++ ['*', '/']) after := by
    intro body after hbody
    rw [Reads, String.toList_ofList]
    exact ⟨rfl, hbody⟩
  simp only [blockComment]
  split
  · exact reads_closedComment (List.prefix_refl _) hplain
  · exact reads_closedComment ⟨['*'], rfl⟩ hdoc
  · exact reads_closedComment (List.prefix_refl _) hplain

theorem reads_regex (cs : List Char) :
    (regex cs).kind.Reads (regex cs).text (regex cs).rest := by
  simp only [regex]
  split
  · rw [Reads, String.toList_ofList]
    exact ⟨(Content.ofRegex false cs).rest.takeWhile isAlphanumeric, by simp,
      List.all_eq_true.mp List.all_takeWhile⟩
  · exact List.cons_ne_nil _ _

theorem reads_string {quote : Char} (hquote : isQuote quote = true) (cs : List Char) :
    (string quote cs).kind.Reads (string quote cs).text (string quote cs).rest := by
  simp only [string]
  split
  · rw [Reads, String.toList_ofList]
    exact ⟨quote, hquote, by simp⟩
  · exact ⟨quote, rfl, hquote⟩

theorem reads_blanks {c : Char} (hc : isBlank c = true) (cs : List Char) :
    (run .blanks isBlank c cs).kind.Reads (run .blanks isBlank c cs).text
      (run .blanks isBlank c cs).rest := by
  refine ⟨fun b hb => ?_, fun b hb => ?_⟩
  · rcases List.mem_cons.mp hb with rfl | hb
    · exact hc
    · exact List.all_eq_true.mp List.all_takeWhile b hb
  · have hhead := List.head?_dropWhile_not isBlank cs
    have hb : (cs.dropWhile isBlank).head? = some b := hb
    rw [hb] at hhead
    exact hhead

/-- **What the first token of a text says is true.** -/
theorem reads_first (before : Option Char) (c : Char) (cs : List Char) :
    (first before c cs).kind.Reads (first before c cs).text (first before c cs).rest := by
  simp only [first]
  split
  · next hslash =>
    subst hslash
    split
    · exact reads_lineComment _
    · exact reads_blockComment _
    · split
      · exact reads_regex _
      · exact List.cons_ne_nil _ _
  · split
    · next hquote => exact reads_string hquote cs
    · split
      · next hblank => exact reads_blanks hblank cs
      · exact List.cons_ne_nil _ _

end Lexeme

end ApiAnnotation
