import ApiAnnotation.Proofs.Text.Cut
import ApiAnnotation.Token.Scan

/-!
# Tokens that are finished

A token ends where it does because of the text after it: a run of code goes on as long as it can,
and an opening quote takes all the text up to its match. But a token that something follows is
finished. However the text goes on, its kind, its text and the characters left of the old text are
the same.

Most readers need one character beyond the token to see its end, and this character is then part of
the rest; only a literal or a comment can end without one, and these say by their last characters
that they are closed.

## Main statements

* `ApiAnnotation.Content.ofString_append`, `ApiAnnotation.Content.ofRegex_append`: the content of a
  literal that is followed by something stays as it is.
* `ApiAnnotation.Lexeme.first_append`: so does every token.
-/

namespace ApiAnnotation

universe u

/-! ### The front of a text that goes on -/

section Front

variable {α : Type u} {p : α → Bool} {l : List α}

/-- A run that something stops does not get longer. -/
theorem takeWhile_append_of_stopped (h : l.dropWhile p ≠ []) (more : List α) :
    (l ++ more).takeWhile p = l.takeWhile p := by
  have hlength := congrArg List.length (List.takeWhile_append_dropWhile (p := p) (l := l))
  have hpos : 0 < (l.dropWhile p).length := List.length_pos_iff.mpr h
  rw [List.length_append] at hlength
  rw [List.takeWhile_append, if_neg (by omega)]

/-- What stops a run is still there when more follows. -/
theorem dropWhile_append_of_stopped (h : l.dropWhile p ≠ []) (more : List α) :
    (l ++ more).dropWhile p = l.dropWhile p ++ more := by
  rw [List.dropWhile_append, if_neg (by rwa [List.isEmpty_iff])]

end Front

namespace Content

/-- The content with more text after it. -/
def extend (content : Content) (more : List Char) : Content :=
  { content with rest := content.rest ++ more }

variable {content : Content} {cs : List Char}

@[simp] theorem prepend_extend (content : Content) (front more : List Char) :
    (content.prepend front).extend more = (content.extend more).prepend front := rfl

/-- A string literal that is followed by something stays as it is. -/
theorem ofString_append {quote : Char} (h : (ofString quote cs).rest ≠ []) (more : List Char) :
    ofString quote (cs ++ more) = (ofString quote cs).extend more := by
  fun_induction ofString quote cs with
  | case1 => exact absurd rfl h
  | case2 cs =>
    rw [List.cons_append, ofString.eq_def]
    exact if_pos rfl
  | case3 => exact absurd rfl h
  | case4 e cs hquote ih =>
    rw [List.cons_append, List.cons_append, ofString, if_neg hquote, if_pos rfl, ih h,
      prepend_extend]
  | case5 c cs hquote hescape hbreak =>
    rw [List.cons_append, ofString.eq_def]
    exact (if_neg hquote).trans ((if_neg hescape).trans (if_pos hbreak))
  | case6 c cs hquote hescape hbreak ih =>
    rw [List.cons_append, prepend_extend, ← ih h, ofString.eq_def]
    exact (if_neg hquote).trans ((if_neg hescape).trans (if_neg hbreak))

/-- A pattern that is followed by something stays as it is. -/
theorem ofRegex_append {inClass : Bool} (h : (ofRegex inClass cs).rest ≠ []) (more : List Char) :
    ofRegex inClass (cs ++ more) = (ofRegex inClass cs).extend more := by
  fun_induction ofRegex inClass cs with
  | case1 => exact absurd rfl h
  | case2 inClass cs =>
    rw [List.cons_append, ofRegex.eq_def]
    exact if_pos rfl
  | case3 inClass c cs hbreak hclose =>
    rw [List.cons_append, ofRegex.eq_def]
    exact (if_neg hbreak).trans (if_pos hclose)
  | case4 => exact absurd rfl h
  | case5 inClass cs hbreak hclose =>
    rw [List.cons_append, List.cons_append, ofRegex, if_neg hbreak, if_neg hclose, if_pos rfl,
      if_pos rfl]
    rfl
  | case6 inClass e cs hbreak hbreak' hclose ih =>
    rw [List.cons_append, List.cons_append, ofRegex, if_neg hbreak', if_neg hclose, if_pos rfl,
      if_neg hbreak, ih h, prepend_extend]
  | case7 inClass c cs hbreak hclose hescape ih =>
    rw [List.cons_append, prepend_extend, ← ih h, ofRegex.eq_def]
    exact (if_neg hbreak).trans ((if_neg hclose).trans (if_neg hescape))

end Content

namespace Lexeme

/-- The token with more text after it. -/
def extend (lexeme : Lexeme) (more : List Char) : Lexeme :=
  { lexeme with rest := lexeme.rest ++ more }

variable {c : Char} {cs : List Char}

theorem lineComment_append (h : (lineComment cs).rest ≠ []) (more : List Char) :
    lineComment (cs ++ more) = (lineComment cs).extend more := by
  have hrest : cs.dropWhile (· ≠ '\n') ≠ [] := h
  rw [lineComment, takeWhile_append_of_stopped hrest, dropWhile_append_of_stopped hrest]
  rfl

theorem run_append {kind : Token.Kind} {p : Char → Bool} (h : (run kind p c cs).rest ≠ [])
    (more : List Char) : run kind p c (cs ++ more) = (run kind p c cs).extend more := by
  have hrest : cs.dropWhile p ≠ [] := h
  rw [run, takeWhile_append_of_stopped hrest, dropWhile_append_of_stopped hrest]
  rfl

theorem closedComment_append {opening : List Char} {kind : List Char → Token.Kind}
    (h : (closedComment opening kind cs).rest ≠ []) (more : List Char) :
    closedComment opening kind (cs ++ more) = (closedComment opening kind cs).extend more := by
  rw [closedComment] at h
  rcases hcut : Text.cutAt? ['*', '/'] cs with _ | ⟨body, rest⟩
  · rw [hcut] at h
    exact absurd rfl h
  · rw [closedComment, closedComment, hcut, Text.cutAt?_append (by simp) hcut]
    rfl

/-- One more star opens a doc comment, unless a slash follows it. -/
theorem blockComment_star {d : Char} (hd : d ≠ '/') (cs : List Char) :
    blockComment ('*' :: d :: cs) =
      closedComment ['/', '*', '*'] (fun body => .docComment (String.ofList body)) (d :: cs) := by
  simp only [blockComment]
  split
  · next heq => exact absurd (List.cons.inj (List.cons.inj heq).2).1 hd
  · next heq => rw [(List.cons.inj heq).2]
  · next hother => exact absurd rfl (hother _)

/-- Any other block comment is a plain one. -/
theorem blockComment_of_ne_star (hc : c ≠ '*') (cs : List Char) :
    blockComment (c :: cs) =
      closedComment ['/', '*'] (fun body => .comment (String.ofList (Text.trim body)))
        (c :: cs) := by
  simp only [blockComment]
  split
  · rfl
  · next heq => exact absurd (List.cons.inj heq).1 hc
  · rfl

theorem blockComment_append (h : (blockComment cs).rest ≠ []) (more : List Char) :
    blockComment (cs ++ more) = (blockComment cs).extend more := by
  rcases cs with _ | ⟨c, cs⟩
  · exact absurd rfl h
  by_cases hstar : c = '*'
  · subst hstar
    rcases cs with _ | ⟨d, cs⟩
    · exact absurd rfl h
    by_cases hslash : d = '/'
    · subst hslash
      exact closedComment_append h more
    · rw [blockComment_star hslash] at h
      rw [List.cons_append, List.cons_append, blockComment_star hslash, blockComment_star hslash,
        ← List.cons_append]
      exact closedComment_append h more
  · rw [blockComment_of_ne_star hstar] at h
    rw [List.cons_append, blockComment_of_ne_star hstar, blockComment_of_ne_star hstar,
      ← List.cons_append]
    exact closedComment_append h more

theorem regex_append (h : (regex cs).rest ≠ []) (more : List Char) :
    regex (cs ++ more) = (regex cs).extend more := by
  have hcontent : (Content.ofRegex false cs).rest ≠ [] := by
    intro hnil
    simp only [regex] at h
    split at h
    · exact h (by rw [hnil]; rfl)
    · exact h hnil
  rw [regex, Content.ofRegex_append hcontent, regex]
  simp only [regex] at h
  by_cases hclosed : (Content.ofRegex false cs).closed = true
  · rw [if_pos hclosed] at h
    simp only [Content.extend, hclosed, if_true, takeWhile_append_of_stopped h,
      dropWhile_append_of_stopped h]
    rfl
  · simp only [Content.extend, hclosed]
    rfl

theorem string_append {quote : Char} (h : (string quote cs).rest ≠ []) (more : List Char) :
    string quote (cs ++ more) = (string quote cs).extend more := by
  have hcontent : (Content.ofString quote cs).rest ≠ [] := by
    simp only [string] at h
    split at h <;> exact h
  rw [string, Content.ofString_append hcontent, string]
  by_cases hclosed : (Content.ofString quote cs).closed = true
  · simp only [Content.extend, hclosed, if_true]
    rfl
  · simp only [Content.extend, hclosed]
    rfl

/-- A text that starts with no slash is read by its first character alone. -/
theorem first_of_ne_slash (before : Option Char) (h : c ≠ '/') (cs : List Char) :
    first before c cs = if isQuote c then string c cs
      else if isBlank c then run .blanks isBlank c cs else run .code isCode c cs := by
  rw [first.eq_def, if_neg h]

/-- A slash that opens no comment opens a pattern or is code. -/
theorem first_slash (before : Option Char) (hline : cs.head? ≠ some '/')
    (hblock : cs.head? ≠ some '*') :
    first before '/' cs = if regexMayFollow before then regex cs else ⟨.code, ['/'], cs⟩ := by
  rw [first.eq_def, if_pos rfl]
  split
  · exact absurd rfl hline
  · exact absurd rfl hblock
  · rfl

/-- A slash takes all the text if there is no other character. -/
theorem rest_first_slash_nil (before : Option Char) : (first before '/' []).rest = [] := by
  rw [first.eq_def, if_pos rfl]
  cases hregex : regexMayFollow before <;> rfl

/-- **A token that is followed by something stays as it is** when more text comes after that. -/
theorem first_append {before : Option Char} (h : (first before c cs).rest ≠ [])
    (more : List Char) : first before c (cs ++ more) = (first before c cs).extend more := by
  by_cases hslash : c = '/'
  · subst hslash
    rcases cs with _ | ⟨d, cs⟩
    · exact absurd (rest_first_slash_nil before) h
    by_cases hline : d = '/'
    · subst hline
      exact lineComment_append h more
    by_cases hblock : d = '*'
    · subst hblock
      exact blockComment_append h more
    have hfirst : ∀ cs, first before '/' (d :: cs) =
        if regexMayFollow before then regex (d :: cs) else ⟨.code, ['/'], d :: cs⟩ :=
      fun cs => first_slash before (by simpa using hline) (by simpa using hblock)
    rw [hfirst] at h
    rw [List.cons_append, hfirst, hfirst]
    by_cases hregex : regexMayFollow before = true
    · rw [if_pos hregex] at h
      rw [if_pos hregex, if_pos hregex, ← List.cons_append]
      exact regex_append h more
    · rw [if_neg hregex, if_neg hregex]
      rfl
  · rw [first_of_ne_slash before hslash] at h
    rw [first_of_ne_slash before hslash, first_of_ne_slash before hslash]
    by_cases hquote : isQuote c = true
    · rw [if_pos hquote] at h
      rw [if_pos hquote, if_pos hquote]
      exact string_append h more
    · rw [if_neg hquote] at h
      rw [if_neg hquote, if_neg hquote]
      by_cases hblank : isBlank c = true
      · rw [if_pos hblank] at h
        rw [if_pos hblank, if_pos hblank]
        exact run_append h more
      · rw [if_neg hblank] at h
        rw [if_neg hblank, if_neg hblank]
        exact run_append h more

end Lexeme

end ApiAnnotation
