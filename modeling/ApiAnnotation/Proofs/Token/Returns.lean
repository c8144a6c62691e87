import ApiAnnotation.Proofs.Text.Returns
import ApiAnnotation.Proofs.Token.Concat

/-!
# Tokens of a source whose lines end in a carriage return and a line feed

A source may end its lines in a line feed or in a carriage return and a line feed. The scanner knows
the line feed alone, so the return is one more character to it, and there are two places where this
shows.

* In plain quotes a backslash at the end of a line takes the line feed with it, and the literal goes
  on. With a return before the line feed the backslash takes that instead, and the line feed ends
  the literal.
* A slash that looks like the start of a pattern takes the rest of its line, up to the line feed.
  With a return this token ends in the return and not in the last character of the line. If that was
  an operator, a slash that comes next no longer opens a pattern.

`ApiAnnotation.Lexeme.LineEndsFree` says that neither of the two happens, and then the tokens are
the same (`ApiAnnotation.Lexeme.map_kind_ofText_withReturns`).

## Main statements

* `ApiAnnotation.Content.ofString_withReturns`, `ApiAnnotation.Content.ofRegex_withReturns`: what a
  return does to a literal.
* `ApiAnnotation.Lexeme.turns_first`: what returns do to one token.
* `ApiAnnotation.Lexeme.map_kind_ofText_withReturns`: what they do to all tokens.
-/

namespace ApiAnnotation

open Text (stringWithReturns)

/-- The kind of a token with a carriage return before every line feed of what it carries along. -/
def Token.Kind.withReturns : Token.Kind → Token.Kind
  | docComment body => docComment (stringWithReturns body)
  | comment text => comment (stringWithReturns text)
  | stringLiteral content => stringLiteral (stringWithReturns content)
  | regexLiteral pattern => regexLiteral (stringWithReturns pattern)
  | kind => kind

/-! ### Literals -/

namespace Content

open Text

variable {quote : Char} {cs : List Char}

/-- The content with a carriage return before every line feed. -/
def withReturns (content : Content) : Content where
  body := Text.withReturns content.body
  closed := content.closed
  rest := Text.withReturns content.rest

@[simp] theorem withReturns_prepend (front : List Char) (content : Content) :
    (content.prepend front).withReturns =
      content.withReturns.prepend (Text.withReturns front) := by
  simp [withReturns, prepend, withReturns_append]

/-- The characters of a literal that something of it follows. -/
def followed (content : Content) : List Char :=
  if content.closed then content.body else content.body.dropLast

theorem mem_followed_prepend {front : List Char} {content : Content} {c : Char}
    (h : c ∈ content.followed) : c ∈ (content.prepend front).followed := by
  rw [followed] at h ⊢
  by_cases hclosed : content.closed = true
  · rw [if_pos hclosed] at h
    rw [prepend, if_pos hclosed]
    exact List.mem_append_right front h
  · rw [if_neg hclosed] at h
    have hbody : content.body ≠ [] := fun hnil => by simp [hnil] at h
    rw [prepend, if_neg hclosed, List.dropLast_append_of_ne_nil hbody]
    exact List.mem_append_right front h

/-- A literal in which nothing stands and which is not closed is all that is left of the text. -/
theorem eq_nil_of_ofString (hclosed : (ofString quote cs).closed = false)
    (hbody : (ofString quote cs).body = []) : cs = [] := by
  fun_induction ofString quote cs <;> simp_all [prepend]

/-- A character in front that nothing of the literal follows is the last of the text. -/
theorem eq_nil_of_not_mem_followed_prepend {front : List Char} {c : Char} (hc : c ∈ front)
    (h : c ∉ ((ofString quote cs).prepend front).followed) : cs = [] := by
  rw [followed, prepend] at h
  by_cases hclosed : (ofString quote cs).closed = true
  · rw [if_pos hclosed] at h
    exact absurd (List.mem_append_left _ hc) h
  · rw [if_neg hclosed] at h
    refine eq_nil_of_ofString (Bool.eq_false_iff.mpr hclosed) ?_
    by_contra hbody
    rw [List.dropLast_append_of_ne_nil hbody] at h
    exact h (List.mem_append_left _ hc)

/-- A return is read like any other character. -/
theorem ofString_return (hreturn : quote ≠ '\r') (cs : List Char) :
    ofString quote ('\r' :: cs) = (ofString quote cs).prepend ['\r'] := by
  rw [ofString.eq_def]
  simp [hreturn.symm]

/-- A line feed ends the literal, unless the quote is a backtick. -/
theorem ofString_newline (hbreak : quote ≠ '\n') (cs : List Char) :
    ofString quote ('\n' :: cs) =
      if quote = '\x60' then (ofString quote cs).prepend ['\n'] else ⟨['\n'], false, cs⟩ := by
  rw [ofString.eq_def]
  simp only [hbreak.symm, if_false]
  split <;> split <;> simp_all

/-- **A string literal has the same characters**, whatever the line ends are, if it is in backticks
or does not go on over the end of a line. -/
theorem ofString_withReturns (hreturn : quote ≠ '\r') (hbreak : quote ≠ '\n')
    (h : quote ≠ '\x60' → '\n' ∉ (ofString quote cs).followed) :
    ofString quote (Text.withReturns cs) = (ofString quote cs).withReturns := by
  fun_induction ofString quote cs with
  | case1 => rfl
  | case2 cs =>
    rw [withReturns_cons hbreak, ofString.eq_def]
    exact if_pos rfl
  | case3 hquote =>
    rw [withReturns_cons (by decide), withReturns_nil, ofString.eq_def]
    exact (if_neg hquote).trans (if_pos rfl)
  | case4 e cs hquote ih =>
    rw [withReturns_cons (by decide)]
    by_cases he : e = '\n'
    · -- the backslash takes the line feed on the one side and the return on the other
      subst he
      rw [withReturns_newline, ofString, if_neg hquote, if_pos rfl, ofString_newline hbreak]
      by_cases hbacktick : quote = '\x60'
      · rw [if_pos hbacktick, ih fun hne => absurd hbacktick hne]
        rfl
      · obtain rfl := eq_nil_of_not_mem_followed_prepend (by simp) (h hbacktick)
        rw [if_neg hbacktick]
        rfl
    · rw [withReturns_cons he, ofString, if_neg hquote, if_pos rfl,
        ih fun hne hmem => h hne (mem_followed_prepend hmem), withReturns_prepend,
        withReturns_cons (by decide), withReturns_cons he, withReturns_nil]
  | case5 c cs hquote hescape hend =>
    obtain ⟨rfl, hbacktick⟩ := hend
    rw [withReturns_newline, ofString_return hreturn, ofString_newline hbreak, if_neg hbacktick]
    rfl
  | case6 c cs hquote hescape hend ih =>
    have ih := ih fun hne hmem => h hne (mem_followed_prepend hmem)
    by_cases hc : c = '\n'
    · subst hc
      have hbacktick : quote = '\x60' := by
        by_contra hne
        exact hend ⟨rfl, hne⟩
      rw [withReturns_newline, ofString_return hreturn, ofString_newline hbreak, if_pos hbacktick,
        ih]
      rfl
    · rw [withReturns_cons hc, withReturns_prepend, ← ih, ofString.eq_def]
      refine (if_neg hquote).trans ((if_neg hescape).trans ((if_neg hend).trans ?_))
      rw [withReturns_cons hc, withReturns_nil]

/-- The content of a pattern with returns. Where the end of a line breaks it off, the return before
the line feed belongs to it. -/
def patternWithReturns (content : Content) : Content :=
  if content.closed ∨ content.rest = [] then content.withReturns
  else
    { body := Text.withReturns content.body ++ ['\r']
      closed := false
      rest := (Text.withReturns content.rest).tail }

theorem patternWithReturns_prepend (front : List Char) (content : Content) :
    (content.prepend front).patternWithReturns =
      content.patternWithReturns.prepend (Text.withReturns front) := by
  by_cases h : content.closed ∨ content.rest = []
  · have h' : (content.prepend front).closed ∨ (content.prepend front).rest = [] := h
    rw [patternWithReturns, if_pos h', patternWithReturns, if_pos h, withReturns_prepend]
  · have h' : ¬((content.prepend front).closed ∨ (content.prepend front).rest = []) := h
    rw [patternWithReturns, if_neg h', patternWithReturns, if_neg h]
    simp [prepend, withReturns_append]

/-- What is not a line feed, a backslash or the closing slash goes on with the pattern. -/
theorem ofRegex_cons {inClass : Bool} {c : Char} (hbreak : c ≠ '\n')
    (hclose : ¬(c = '/' ∧ inClass = false)) (hescape : c ≠ '\\') (cs : List Char) :
    ofRegex inClass (c :: cs) =
      (ofRegex (if c = '[' then true else if c = ']' then false else inClass) cs).prepend [c] := by
  rw [ofRegex.eq_def]
  exact (if_neg hbreak).trans ((if_neg hclose).trans (if_neg hescape))

/-- A line feed breaks a pattern off. -/
theorem ofRegex_newline (inClass : Bool) (cs : List Char) :
    ofRegex inClass ('\n' :: cs) = ⟨[], false, '\n' :: cs⟩ := by
  rw [ofRegex.eq_def]
  exact if_pos rfl

/-- **A pattern has the same characters**, but for the return if the end of a line breaks it
off. -/
theorem ofRegex_withReturns (inClass : Bool) (cs : List Char) :
    ofRegex inClass (Text.withReturns cs) = (ofRegex inClass cs).patternWithReturns := by
  fun_induction ofRegex inClass cs with
  | case1 => rfl
  | case2 inClass cs =>
    rw [withReturns_newline, ofRegex_cons (by decide) (by simp) (by decide), ofRegex_newline]
    rfl
  | case3 inClass c cs hbreak hclose =>
    rw [withReturns_cons hbreak, ofRegex.eq_def]
    exact (if_neg hbreak).trans (if_pos hclose)
  | case4 inClass hbreak hclose =>
    rw [withReturns_cons (by decide), withReturns_nil, ofRegex.eq_def]
    exact (if_neg hbreak).trans ((if_neg hclose).trans (if_pos rfl))
  | case5 inClass cs hbreak hclose =>
    -- the backslash takes the return, and the line feed breaks the pattern off all the same
    rw [withReturns_cons (by decide), withReturns_newline, ofRegex, if_neg hbreak, if_neg hclose,
      if_pos rfl, if_neg (by decide), ofRegex_newline]
    rfl
  | case6 inClass e cs he hbreak hclose ih =>
    rw [withReturns_cons (by decide), withReturns_cons he, ofRegex, if_neg hbreak, if_neg hclose,
      if_pos rfl, if_neg he, ih, patternWithReturns_prepend, withReturns_cons (by decide),
      withReturns_cons he, withReturns_nil]
  | case7 inClass c cs hbreak hclose hescape ih =>
    rw [withReturns_cons hbreak, ofRegex_cons hbreak hclose hescape, patternWithReturns_prepend,
      ← ih, withReturns_cons hbreak, withReturns_nil]

/-- A pattern that is not closed ends with the text or with its line. -/
theorem head?_rest_ofRegex {inClass : Bool} (hclosed : (ofRegex inClass cs).closed = false) :
    ∀ c ∈ (ofRegex inClass cs).rest.head?, c = '\n' := by
  fun_induction ofRegex inClass cs <;> simp_all [prepend]

end Content

/-! ### One token -/

namespace Lexeme

open Text Content

variable {l l' : Lexeme} {c : Char} {cs : List Char} {before before' : Option Char}

/-- Whether a string literal in plain quotes goes on over the end of a line. -/
def continuesLine (l : Lexeme) : Bool :=
  (l.text.head? = some '"' || l.text.head? = some '\'') && l.text.dropLast.contains '\n'

/-- Whether a slash is taken for the start of a pattern, which need not be closed. -/
def opensPattern (l : Lexeme) : Bool :=
  match l.kind with
  | .regexLiteral _ => true
  | .code => l.text.head? = some '/' && l.text ≠ ['/']
  | _ => false

/-- Whether a slash is followed by no more than the rest of its line. -/
def breaksOff (l : Lexeme) : Bool :=
  l.kind = .code && l.text.head? = some '/' && l.rest.head? = some '\n'

/-- **The scanner with returns and without**: after the text so far a pattern may follow alike, or
it may follow only without, and then no pattern comes. -/
def Agree (before before' : Option Char) (noPattern : Prop) : Prop :=
  regexMayFollow before' = regexMayFollow before ∨ regexMayFollow before' = false ∧ noPattern

/-- **What returns do to a token.** -/
structure Turns (l l' : Lexeme) : Prop where
  /-- It is the same token, with returns in what it carries along. -/
  kind : l'.kind = l.kind.withReturns
  /-- What is left is the same, but for a return in front. -/
  rest : Returned l.rest l'.rest
  /-- After it a pattern may follow as before, unless the end of a line breaks it off. -/
  last : l.isSignificant = true →
    regexMayFollow l'.text.getLast? = regexMayFollow l.text.getLast? ∨
      l.breaksOff = true ∧ regexMayFollow l'.text.getLast? = false

/-- A token whose characters are the same up to returns has the same last character. -/
theorem turns_of_eq (hkind : l'.kind = l.kind.withReturns)
    (htext : l'.text = Text.withReturns l.text) (hrest : l'.rest = Text.withReturns l.rest) :
    Turns l l' := by
  refine ⟨hkind, Or.inl hrest, fun _ => Or.inl ?_⟩
  rw [htext, getLast?_withReturns]

theorem turns_run {kind : Token.Kind} {p : Char → Bool} (hkind : kind.withReturns = kind)
    (hp : p '\r' = p '\n') (hc : c ≠ '\n') (cs : List Char) :
    Turns (run kind p c cs) (run kind p c (Text.withReturns cs)) := by
  refine turns_of_eq hkind.symm ?_ (dropWhile_withReturns hp cs)
  rw [run, run, takeWhile_withReturns hp, withReturns_cons hc]

theorem head?_text_string (quote : Char) (cs : List Char) :
    (string quote cs).text.head? = some quote := by
  rw [string]
  split <;> rfl

theorem mem_dropLast_text_string {quote : Char} (h : c ∈ (ofString quote cs).followed) :
    c ∈ (string quote cs).text.dropLast := by
  rw [followed] at h
  rw [string]
  by_cases hclosed : (ofString quote cs).closed = true
  · rw [if_pos hclosed] at h
    rw [if_pos hclosed, List.dropLast_concat]
    exact List.mem_cons_of_mem quote h
  · rw [if_neg hclosed] at h
    have hbody : (ofString quote cs).body ≠ [] := fun hnil => by simp [hnil] at h
    rw [if_neg hclosed, List.dropLast_cons_of_ne_nil hbody]
    exact List.mem_cons_of_mem quote h

theorem turns_string {quote : Char} (hquote : isQuote quote = true)
    (h : (string quote cs).continuesLine = false) :
    Turns (string quote cs) (string quote (Text.withReturns cs)) := by
  have hreturn : quote ≠ '\r' := by rintro rfl; exact absurd hquote (by decide)
  have hbreak : quote ≠ '\n' := by rintro rfl; exact absurd hquote (by decide)
  have hfollowed : quote ≠ '\x60' → '\n' ∉ (ofString quote cs).followed := by
    intro hbacktick hmem
    have hplain : quote = '"' ∨ quote = '\'' := by simpa [isQuote, hbacktick] using hquote
    have hcontains := List.contains_iff_mem.mpr (mem_dropLast_text_string hmem)
    rw [continuesLine, head?_text_string, hcontains, Bool.and_true] at h
    rcases hplain with rfl | rfl <;> exact absurd h (by decide)
  rw [string, string, ofString_withReturns hreturn hbreak hfollowed]
  by_cases hclosed : (ofString quote cs).closed = true
  · have hclosed' : (ofString quote cs).withReturns.closed = true := hclosed
    rw [if_pos hclosed, if_pos hclosed']
    refine turns_of_eq ?_ ?_ rfl
    · exact congrArg Token.Kind.stringLiteral (stringWithReturns_ofList _).symm
    · rw [withReturns_append, withReturns_cons hbreak, withReturns_cons hbreak]
      rfl
  · have hclosed' : ¬(ofString quote cs).withReturns.closed = true := hclosed
    rw [if_neg hclosed, if_neg hclosed']
    refine turns_of_eq rfl ?_ rfl
    rw [withReturns_cons hbreak]
    rfl

/-- A closed pattern stays closed, and one that ends with its line takes the return along. -/
theorem turns_regex (cs : List Char) : Turns (regex cs) (regex (Text.withReturns cs)) := by
  rw [regex, regex, ofRegex_withReturns]
  by_cases hclosed : (ofRegex false cs).closed = true
  · have hclosed' : (ofRegex false cs).withReturns.closed = true := hclosed
    have hflags : isAlphanumeric '\r' = isAlphanumeric '\n' := by decide
    rw [patternWithReturns, if_pos (Or.inl hclosed), if_pos hclosed, if_pos hclosed']
    refine turns_of_eq ?_ ?_ (dropWhile_withReturns hflags _)
    · exact congrArg Token.Kind.regexLiteral (stringWithReturns_ofList _).symm
    · rw [withReturns_append, withReturns_cons (by decide), withReturns_cons (by decide),
        ← takeWhile_withReturns hflags]
      rfl
  · rw [if_neg hclosed]
    by_cases hrest : (ofRegex false cs).rest = []
    · have hclosed' : ¬(ofRegex false cs).withReturns.closed = true := hclosed
      rw [patternWithReturns, if_pos (Or.inr hrest), if_neg hclosed']
      refine turns_of_eq rfl ?_ rfl
      rw [withReturns_cons (by decide)]
      rfl
    · -- the end of the line breaks it off, and a return at its end is no operator
      obtain ⟨d, tail, htail⟩ := List.exists_cons_of_ne_nil hrest
      have hd : d = '\n' :=
        head?_rest_ofRegex (Bool.eq_false_iff.mpr hclosed) d (by rw [htail]; rfl)
      subst hd
      rw [patternWithReturns, if_neg (not_or.mpr ⟨hclosed, hrest⟩), if_neg Bool.false_ne_true]
      refine ⟨rfl, Or.inr ⟨tail, htail, ?_⟩, fun _ => Or.inr ⟨?_, ?_⟩⟩
      · rw [htail]
        rfl
      · simp [breaksOff, htail]
      · rw [← List.cons_append, List.getLast?_concat]
        decide

/-- The return that ends a line comment is white space. -/
theorem turns_lineComment (cs : List Char) :
    Turns (lineComment cs) (lineComment (Text.withReturns cs)) := by
  refine ⟨?_, returned_dropWhile cs, fun h => Bool.noConfusion h⟩
  have hline : '\n' ∉ cs.takeWhile (· ≠ '\n') := fun hmem => by
    simpa using List.all_eq_true.mp List.all_takeWhile _ hmem
  have htrim : trim ((Text.withReturns cs).takeWhile (· ≠ '\n')) =
      trim (cs.takeWhile (· ≠ '\n')) := by
    rcases takeWhile_ne_withReturns cs with heq | heq
    · rw [heq]
    · rw [heq, trim_append (List.forall_mem_singleton.mpr isBlank_return)]
  show Token.Kind.comment _ = Token.Kind.comment _
  rw [htrim, stringWithReturns_ofList, ← trim_withReturns, withReturns_of_not_mem hline]

theorem turns_closedComment (opening : List Char) (kind : List Char → Token.Kind)
    (hopening : '\n' ∉ opening)
    (hkind : ∀ body, kind (Text.withReturns body) = (kind body).withReturns) (cs : List Char) :
    Turns (closedComment opening kind cs) (closedComment opening kind (Text.withReturns cs)) := by
  rw [closedComment, closedComment, cutAt?_withReturns]
  rcases cutAt? ['*', '/'] cs with _ | ⟨body, rest⟩
  · refine turns_of_eq rfl ?_ rfl
    rw [withReturns_append, withReturns_of_not_mem hopening]
    rfl
  · refine turns_of_eq (hkind body) ?_ rfl
    rw [withReturns_append, withReturns_append, withReturns_of_not_mem hopening]
    rfl

theorem turns_blockComment (cs : List Char) :
    Turns (blockComment cs) (blockComment (Text.withReturns cs)) := by
  have hplain := turns_closedComment ['/', '*']
    (fun body => .comment (String.ofList (trim body))) (by decide) fun body => by
      rw [trim_withReturns]
      exact congrArg Token.Kind.comment (stringWithReturns_ofList _).symm
  have hdoc := turns_closedComment ['/', '*', '*']
    (fun body => .docComment (String.ofList body)) (by decide) fun body =>
      congrArg Token.Kind.docComment (stringWithReturns_ofList _).symm
  rcases cs with _ | ⟨c, cs⟩
  · exact hplain []
  by_cases hstar : c = '*'
  · subst hstar
    rw [withReturns_cons (by decide)]
    rcases cs with _ | ⟨d, cs⟩
    · exact hdoc []
    by_cases hslash : d = '/'
    · subst hslash
      rw [withReturns_cons (by decide)]
      exact hplain ('*' :: '/' :: cs)
    · have hdoc := hdoc (d :: cs)
      rw [blockComment_star hslash]
      by_cases hd : d = '\n'
      · subst hd
        exact hdoc
      · rw [withReturns_cons hd] at hdoc ⊢
        rw [blockComment_star hslash]
        exact hdoc
  · have hplain := hplain (c :: cs)
    rw [blockComment_of_ne_star hstar]
    by_cases hc : c = '\n'
    · subst hc
      exact hplain
    · rw [withReturns_cons hc] at hplain ⊢
      rw [blockComment_of_ne_star hstar]
      exact hplain

/-- A slash that is not taken for the start of a pattern is a token of its own. -/
theorem regex_of_opensPattern (h : (regex cs).opensPattern = false) :
    regex cs = ⟨.code, ['/'], cs⟩ := by
  have hwhole := Content.whole_ofRegex false cs
  rw [regex] at h ⊢
  by_cases hclosed : (ofRegex false cs).closed = true
  · rw [if_pos hclosed] at h
    exact Bool.noConfusion h
  · rw [if_neg hclosed] at h ⊢
    have hbody : (ofRegex false cs).body = [] := by simpa [opensPattern] using h
    rw [whole, hbody, Bool.eq_false_iff.mpr hclosed] at hwhole
    rw [hbody]
    exact congrArg (Lexeme.mk .code ['/']) hwhole

/-- A slash that opens no comment takes the rest of its line or nothing. -/
theorem turns_slash (hbefore : Agree before before' ((first before '/' cs).opensPattern = false))
    (hline : cs.head? ≠ some '/') (hblock : cs.head? ≠ some '*') :
    Turns (first before '/' cs) (first before' '/' (Text.withReturns cs)) := by
  have hslash : Turns ⟨.code, ['/'], cs⟩ ⟨.code, ['/'], Text.withReturns cs⟩ :=
    turns_of_eq rfl rfl rfl
  rw [first_slash before hline hblock] at hbefore ⊢
  rw [first_slash before' (head?_withReturns_ne (by decide) hline)
    (head?_withReturns_ne (by decide) hblock)]
  rcases hbefore with hsame | ⟨hbefore', hopens⟩
  · rw [hsame]
    split
    · exact turns_regex cs
    · exact hslash
  · rw [hbefore', if_neg Bool.false_ne_true]
    split at hopens
    · rw [regex_of_opensPattern hopens, ite_self]
      exact hslash
    · next hregex => rwa [if_neg hregex]

/-- **What returns do to the first token of a text**, which does not start with a line feed. The
text before it may end otherwise if no pattern is opened. -/
theorem turns_first (hc : c ≠ '\n')
    (hbefore : Agree before before' ((first before c cs).opensPattern = false))
    (hline : (first before c cs).continuesLine = false) :
    Turns (first before c cs) (first before' c (Text.withReturns cs)) := by
  by_cases hslash : c = '/'
  · subst hslash
    rcases cs with _ | ⟨d, cs⟩
    · exact turns_slash hbefore (by simp) (by simp)
    by_cases hline : d = '/'
    · subst hline
      rw [withReturns_cons (by decide)]
      exact turns_lineComment cs
    by_cases hblock : d = '*'
    · subst hblock
      rw [withReturns_cons (by decide)]
      exact turns_blockComment cs
    exact turns_slash hbefore (by simpa using hline) (by simpa using hblock)
  · rw [first_of_ne_slash before hslash] at hline ⊢
    rw [first_of_ne_slash before' hslash]
    by_cases hquote : isQuote c = true
    · rw [if_pos hquote] at hline
      rw [if_pos hquote, if_pos hquote]
      exact turns_string hquote hline
    · rw [if_neg hquote, if_neg hquote]
      by_cases hblank : isBlank c = true
      · rw [if_pos hblank, if_pos hblank]
        exact turns_run rfl (by decide) hc cs
      · rw [if_neg hblank, if_neg hblank]
        exact turns_run rfl (by decide) hc cs

/-- White space that starts with a line feed ends in the same place, with a return in front or
without. -/
theorem turns_newline {cs' : List Char} (h : Returned ('\n' :: cs) (c :: cs')) :
    Turns (first before '\n' cs) (first before' c cs') := by
  have hrun : ∀ ds, ds.dropWhile isBlank = (Text.withReturns cs).dropWhile isBlank →
      isBlank c = true → Turns (first before '\n' cs) (first before' c ds) := by
    intro ds hds hc
    rw [first_of_isBlank before (by decide), first_of_isBlank before' hc]
    refine ⟨rfl, Or.inl ?_, fun hsignificant => Bool.noConfusion hsignificant⟩
    exact hds.trans (dropWhile_withReturns (by decide) cs)
  rcases h with h | ⟨tail, htail, h⟩
  · obtain ⟨rfl, rfl⟩ := List.cons.inj h
    exact hrun _ rfl (by decide)
  · obtain ⟨-, rfl⟩ := List.cons.inj htail
    obtain ⟨rfl, rfl⟩ := List.cons.inj h
    exact hrun _ rfl (by decide)

/-! ### All tokens -/

/-- The tokens of a text with their characters, the significant character before it being given. -/
def ofText (before : Option Char) : List Char → List Lexeme
  | [] => []
  | c :: cs =>
    let lexeme := first before c cs
    lexeme :: ofText (lexeme.significant before) lexeme.rest
termination_by cs => cs.length
decreasing_by exact length_rest_first_lt before c cs

/-- **Tokens that do not depend on how lines end.** -/
structure LineEndsFree (ls : List Lexeme) : Prop where
  /-- No literal in plain quotes goes on over the end of a line. -/
  literals : ∀ l ∈ ls, l.continuesLine = false
  /-- Where the end of a line breaks a token off behind an operator, no pattern comes next. -/
  patterns : (ls.filter (·.isSignificant)).IsChain fun l next =>
    l.breaksOff = true → regexMayFollow l.text.getLast? = true → next.opensPattern = false

theorem LineEndsFree.tail {ls : List Lexeme} (h : LineEndsFree (l :: ls)) : LineEndsFree ls where
  literals := fun l' hl' => h.literals l' (List.mem_cons_of_mem l hl')
  patterns := by
    have hchain := h.patterns
    rw [List.filter_cons] at hchain
    split at hchain
    · exact hchain.tail
    · exact hchain

/-- A token that does not count opens no pattern. -/
theorem opensPattern_of_not_isSignificant (h : ¬l.isSignificant = true) :
    l.opensPattern = false := by
  rw [isSignificant] at h
  rw [opensPattern]
  split at h <;> simp_all

/-- What returns do to a token does not change whether it counts. -/
theorem Turns.isSignificant_eq (h : Turns l l') : l'.isSignificant = l.isSignificant := by
  rw [isSignificant, isSignificant, h.kind]
  cases l.kind <;> rfl

/-- Whether no pattern comes next: the first token that counts opens none. -/
def NoPattern (ls : List Lexeme) : Prop :=
  ∀ next ∈ (ls.filter (·.isSignificant)).head?, next.opensPattern = false

theorem NoPattern.head {ls : List Lexeme} (h : NoPattern (l :: ls)) : l.opensPattern = false := by
  by_cases hsignificant : l.isSignificant = true
  · rw [NoPattern, List.filter_cons, if_pos hsignificant] at h
    exact h l rfl
  · exact opensPattern_of_not_isSignificant hsignificant

/-- **The state stays so** from one token to the next. -/
theorem Agree.step {ls : List Lexeme} (h : Agree before before' (NoPattern (l :: ls)))
    (hfree : LineEndsFree (l :: ls)) (hturns : Turns l l') :
    Agree (l.significant before) (l'.significant before') (NoPattern ls) := by
  rw [significant, significant, hturns.isSignificant_eq]
  by_cases hsignificant : l.isSignificant = true
  · rw [if_pos hsignificant, if_pos hsignificant]
    rcases hturns.last hsignificant with hsame | ⟨hbreaks, hlast'⟩
    · exact Or.inl hsame
    by_cases hlast : regexMayFollow l.text.getLast? = true
    · -- the line is broken off behind an operator, and then no pattern comes next
      have hchain := hfree.patterns
      rw [List.filter_cons, if_pos hsignificant, List.isChain_cons] at hchain
      exact Or.inr ⟨hlast', fun next hnext => hchain.1 next hnext hbreaks hlast⟩
    · exact Or.inl (hlast'.trans (Bool.eq_false_iff.mpr hlast).symm)
  · rw [if_neg hsignificant, if_neg hsignificant]
    rwa [NoPattern, List.filter_cons, if_neg hsignificant] at h

/-- **The tokens of a text are the same** with returns and without, but for the returns in what they
carry along. -/
theorem map_kind_ofText_withReturns (before : Option Char) (cs : List Char) :
    ∀ before' cs', Returned cs cs' → LineEndsFree (ofText before cs) →
      Agree before before' (NoPattern (ofText before cs)) →
      (ofText before' cs').map (·.kind) = (ofText before cs).map (·.kind.withReturns) := by
  fun_induction ofText before cs with
  | case1 before =>
    intro before' cs' hcs _ _
    rw [hcs.eq_nil, ofText]
    rfl
  | case2 before c cs lexeme ih =>
    intro before' cs' hcs hfree hagree
    obtain ⟨c', tail', rfl⟩ := hcs.exists_cons
    have hturns : Turns lexeme (first before' c' tail') := by
      -- a return can only be gone in front of white space, where the state plays no part
      by_cases hc : c = '\n'
      · subst hc
        exact turns_newline hcs
      · obtain ⟨rfl, rfl⟩ := List.cons.inj (hcs.eq_cons hc)
        have hbefore := hagree.imp_right (And.imp_right NoPattern.head)
        exact turns_first hc hbefore (hfree.literals lexeme List.mem_cons_self)
    rw [ofText, List.map_cons, List.map_cons, hturns.kind]
    exact congrArg _ (ih _ _ hturns.rest hfree.tail (hagree.step hfree hturns))

end Lexeme

end ApiAnnotation
