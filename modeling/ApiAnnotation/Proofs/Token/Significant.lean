import ApiAnnotation.Proofs.Text.Trim
import ApiAnnotation.Proofs.Token.States

/-!
# The significant character

A slash divides or opens a pattern, by the significant character before it. This is meant to be the
last visible character: the last one before the slash that is neither white space nor in a comment.
The scanner keeps the last character of the last significant token instead, and that is the visible
one unless the token ends in white space (`ApiAnnotation.Token.Significant`).

There are such tokens. A string literal that the end of its line breaks off takes the line feed
along, and a line that looks like a pattern without being one takes the white space at its end.
After such a token the significant character is white space, which is no operator, so a slash
divides even where the last visible character is one (`ApiAnnotation.Token.not_visible_significant`).

## Main statements

* `ApiAnnotation.Token.Reached.significant`: the significant character in every state of the
  scanner.
* `ApiAnnotation.Token.Reached.judged`: how a slash is judged there.
-/

namespace ApiAnnotation

/-! ### White space and letters -/

/-- Letters and digits are not white space. -/
theorem isBlank_eq_false_of_isAlphanumeric {c : Char} (h : isAlphanumeric c = true) :
    isBlank c = false := by
  have hblanks : ∀ n ∈ blankCodes, isAlphanumeric (Char.ofNat n) = false := by decide +kernel
  by_contra hblank
  have hc := hblanks c.toNat (toNat_mem_blankCodes ((Bool.not_eq_false _).mp hblank))
  rw [Char.ofNat_toNat, h] at hc
  exact absurd hc.symm Bool.false_ne_true

namespace Lexeme

variable {before : Option Char} {c : Char} {cs : List Char} {l : Lexeme}

/-! ### The end of a token -/

/-- Whether the token is a closed comment. -/
def isComment (l : Lexeme) : Bool :=
  match l.kind with
  | .comment _ | .docComment _ => true
  | _ => false

/-- The characters of a token that can be seen: no white space and no comment. -/
def visible (l : Lexeme) : List Char := if l.isComment then [] else l.text.filter (!isBlank ·)

/-- **Whether the token is cut off**: a string literal that is not closed, a comment that is not
closed, or what a slash opens without a closing one. -/
def IsCutOff (l : Lexeme) : Prop :=
  l.kind = .openString ∨ l.kind = .openComment ∨ l.kind = .code ∧ l.text.head? = some '/'

/-- Whether the last character of the token is white space. -/
def EndsBlank (l : Lexeme) : Prop := ∃ c ∈ l.text.getLast?, isBlank c = true

/-- What is not significant cannot be seen. -/
theorem visible_first_eq_nil (h : (first before c cs).isSignificant = false) :
    (first before c cs).visible = [] := by
  have hreads := reads_first before c cs
  rw [visible]
  by_cases hcomment : (first before c cs).isComment = true
  · exact if_pos hcomment
  · rw [if_neg hcomment]
    have hkind : (first before c cs).kind = .blanks := by
      rw [isSignificant] at h
      rw [isComment] at hcomment
      split at h <;> simp_all
    rw [hkind] at hreads
    exact List.filter_eq_nil_iff.mpr fun b hb => by simp [hreads.1 b hb]

/-- The last character of a significant token can be seen if it is not white space. -/
theorem getLast?_visible (h : l.isSignificant = true) (hends : ¬l.EndsBlank)
    (htext : l.text ≠ []) (seen : List Char) :
    (seen ++ l.visible).getLast? = l.text.getLast? := by
  have hcomment : ¬l.isComment = true := by
    rw [isSignificant] at h
    rw [isComment]
    split at h <;> simp_all
  obtain ⟨c, hc⟩ := Option.isSome_iff_exists.mp (List.getLast?_isSome.mpr htext)
  have hvisible : isBlank c = false := by
    by_contra hblank
    exact hends ⟨c, hc, (Bool.not_eq_false _).mp hblank⟩
  obtain ⟨front, hfront⟩ := List.getLast?_eq_some_iff.mp hc
  rw [visible, if_neg hcomment, hfront, List.filter_append,
    List.filter_cons_of_pos (by simp [hvisible])]
  simp

/-- Code that does not start with a slash has no white space in it. -/
theorem isBlank_eq_false_of_code (hslash : c ≠ '/') (h : (first before c cs).kind = .code) :
    ∀ d ∈ (first before c cs).text, isBlank d = false := by
  rw [first_of_ne_slash before hslash] at h ⊢
  by_cases hquote : isQuote c = true
  · rw [if_pos hquote, string] at h
    split at h
    · exact Token.Kind.noConfusion h
    · exact Token.Kind.noConfusion h
  · by_cases hblank : isBlank c = true
    · rw [if_neg hquote, if_pos hblank] at h
      exact Token.Kind.noConfusion h
    · rw [if_neg hquote, if_neg hblank]
      intro d hd
      rcases List.mem_cons.mp hd with rfl | hd
      · exact Bool.eq_false_iff.mpr hblank
      · have hcode : isCode d = true := List.all_eq_true.mp List.all_takeWhile d hd
        rw [isCode] at hcode
        simp_all

/-- **A significant token that ends in white space is cut off.** Strings end in a quote, patterns in
a slash or a flag, and code in no white space, unless it is a pattern that is not closed. -/
theorem isCutOff_of_endsBlank (h : (first before c cs).isSignificant = true)
    (hends : (first before c cs).EndsBlank) : (first before c cs).IsCutOff := by
  obtain ⟨d, hd, hblank⟩ := hends
  have hvisible : isBlank d ≠ false := by rw [hblank]; exact Bool.noConfusion
  have hreads := reads_first before c cs
  rw [isSignificant] at h
  cases hkind : (first before c cs).kind with
  | openString => exact Or.inl hkind
  | openComment => exact Or.inr (Or.inl hkind)
  | blanks | comment | docComment =>
    rw [hkind] at h
    exact absurd h Bool.false_ne_true
  | endOfSource =>
    rw [hkind] at hreads
    exact absurd hreads.1 (text_first_ne_nil before c cs)
  | stringLiteral content =>
    rw [hkind] at hreads
    obtain ⟨quote, hquote, htext⟩ := hreads
    rw [htext, List.getLast?_concat] at hd
    obtain rfl := Option.some.inj hd
    exact absurd (isBlank_eq_false_of_isQuote hquote) hvisible
  | regexLiteral pattern =>
    rw [hkind] at hreads
    obtain ⟨flags, htext, hflags⟩ := hreads
    have hmem : d ∈ ['/'] ++ flags := by
      have hne : ['/'] ++ flags ≠ [] := List.cons_ne_nil _ _
      rw [htext, List.append_assoc, List.getLast?_append_of_ne_nil _ hne] at hd
      exact List.mem_of_getLast? hd
    rcases List.mem_cons.mp hmem with rfl | hd
    · exact absurd rfl hvisible
    · exact absurd (isBlank_eq_false_of_isAlphanumeric (hflags d hd)) hvisible
  | code =>
    by_cases hslash : c = '/'
    · have hhead := head?_text_first before c cs
      rw [hslash] at hhead
      exact Or.inr (Or.inr ⟨hkind, hslash ▸ hhead⟩)
    · exact absurd (isBlank_eq_false_of_code hslash hkind d (List.mem_of_getLast? hd)) hvisible

/-! ### Operators -/

theorem regexMayFollow_iff (before : Option Char) :
    regexMayFollow before = true ↔ ∀ c ∈ before, c ∈ operators := by
  cases before with
  | none => simp [regexMayFollow]
  | some c => simp [regexMayFollow]

/-- No operator is white space. -/
theorem isBlank_eq_false_of_mem_operators {c : Char} (h : c ∈ operators) : isBlank c = false := by
  have hall : operators.all (!isBlank ·) = true := by decide +kernel
  simpa using List.all_eq_true.mp hall c h

end Lexeme

namespace Token

open Lexeme

/-! ### The significant character of a state -/

/-- The last token that counts when a slash is read. -/
def lastSignificant (past : List Lexeme) : Option Lexeme :=
  (past.filter (·.isSignificant)).getLast?

/-- The characters of tokens in a row that can be seen. -/
def visible (past : List Lexeme) : List Char := past.flatMap (·.visible)

/-- Whether the last token that counts, if there is one, does not end in white space. -/
def EndsVisible (past : List Lexeme) : Prop := ∀ l ∈ lastSignificant past, ¬l.EndsBlank

/-- **What the significant character is** after the tokens `past`. -/
structure Significant (past : List Lexeme) (before : Option Char) : Prop where
  /-- It is the last character of the last significant token. -/
  last : before = (lastSignificant past).bind (·.text.getLast?)
  /-- This character is the last visible one unless the token ends in white space. -/
  visible : EndsVisible past → before = (visible past).getLast?
  /-- Only a token that is cut off ends in white space. -/
  cutOff : ∀ l ∈ lastSignificant past, l.EndsBlank → l.IsCutOff

variable {source : String} {past : List Lexeme} {before : Option Char} {rest : List Char}

theorem lastSignificant_concat (past : List Lexeme) {l : Lexeme} (h : l.isSignificant = true) :
    lastSignificant (past ++ [l]) = some l := by
  rw [lastSignificant, List.filter_append, List.filter_cons_of_pos h, List.filter_nil,
    List.getLast?_concat]

theorem lastSignificant_concat_of_not (past : List Lexeme) {l : Lexeme}
    (h : ¬l.isSignificant = true) : lastSignificant (past ++ [l]) = lastSignificant past := by
  rw [lastSignificant, List.filter_append, List.filter_cons_of_neg h, List.filter_nil,
    List.append_nil, lastSignificant]

theorem visible_concat (past : List Lexeme) (l : Lexeme) :
    visible (past ++ [l]) = visible past ++ l.visible := by
  rw [visible, List.flatMap_append, List.flatMap_singleton]
  rfl

/-- One more token is read. -/
theorem Significant.token (h : Significant past before) (c : Char) (cs : List Char) :
    Significant (past ++ [first before c cs]) ((first before c cs).significant before) := by
  by_cases hsignificant : (first before c cs).isSignificant = true
  · have hlast := lastSignificant_concat past hsignificant
    rw [significant, if_pos hsignificant]
    refine ⟨?_, fun hends => ?_, fun l hl hends => ?_⟩
    · rw [hlast]
      rfl
    · rw [visible_concat]
      exact (getLast?_visible hsignificant (hends _ hlast) (text_first_ne_nil before c cs) _).symm
    · obtain rfl := Option.some.inj (hlast.symm.trans hl)
      exact isCutOff_of_endsBlank hsignificant hends
  · -- what is not significant leaves everything as it is
    have hlast := lastSignificant_concat_of_not past hsignificant
    have hvisible := visible_first_eq_nil (Bool.eq_false_iff.mpr hsignificant)
    rw [significant, if_neg hsignificant]
    refine ⟨?_, ?_, ?_⟩
    · rw [hlast]
      exact h.last
    · rw [EndsVisible, hlast, visible_concat, hvisible, List.append_nil]
      exact h.visible
    · rw [hlast]
      exact h.cutOff

/-- **The significant character in every state of the scanner.** -/
theorem Reached.significant (h : Reached source.toList past before rest) :
    Significant past before := by
  induction h with
  | start => exact ⟨rfl, fun _ => rfl, fun l hl => absurd hl (Option.some_ne_none l).symm⟩
  | token _ ih => exact ih.token _ _

/-- Nothing is left behind a comment that is not closed. -/
theorem Reached.eq_nil_of_openComment (h : Reached source.toList past before rest) :
    ∀ l ∈ past, l.kind = .openComment → rest = [] := by
  induction h with
  | start => exact fun l hl => absurd hl List.not_mem_nil
  | @token past before c cs _ ih =>
    intro l hl hkind
    rcases List.mem_append.mp hl with hl | hl
    · exact absurd (ih l hl hkind) (List.cons_ne_nil c cs)
    · obtain rfl := List.mem_singleton.mp hl
      exact (reads_first before c cs).eq_nil_of_openComment hkind

/-! ### How a slash is judged -/

/-- The tokens after which a pattern is meant to come: the last visible character is an operator, or
there is none. -/
def MeetsOperator (past : List Lexeme) : Prop := ∀ c ∈ (visible past).getLast?, c ∈ operators

theorem Significant.isBlank_iff (h : Significant past before) :
    (∀ c ∈ before, isBlank c = false) ↔ EndsVisible past := by
  rw [h.last]
  constructor
  · rintro hvisible l hl ⟨c, hc, hblank⟩
    have hc' : c ∈ (lastSignificant past).bind (·.text.getLast?) :=
      Option.mem_bind_iff.mpr ⟨l, hl, hc⟩
    exact absurd ((hvisible c hc').symm.trans hblank) Bool.false_ne_true
  · intro hends c hc
    obtain ⟨l, hl, hc⟩ := Option.mem_bind_iff.mp hc
    by_contra hblank
    exact hends l hl ⟨c, hc, (Bool.not_eq_false _).mp hblank⟩

/-- **A slash opens a pattern** exactly if it is meant to and the last significant token does not
end in white space. -/
theorem Significant.regexMayFollow_iff (h : Significant past before) :
    regexMayFollow before = true ↔ EndsVisible past ∧ MeetsOperator past := by
  rw [Lexeme.regexMayFollow_iff]
  constructor
  · intro hoperator
    have hends := h.isBlank_iff.mp fun c hc => isBlank_eq_false_of_mem_operators (hoperator c hc)
    exact ⟨hends, by rwa [MeetsOperator, ← h.visible hends]⟩
  · rintro ⟨hends, hoperator⟩
    rwa [h.visible hends]

/-- **How a slash is judged** in a state of the scanner. -/
structure Judged (past : List Lexeme) (before : Option Char) (rest : List Char) : Prop where
  /-- Unless the last significant token ends in white space, the significant character is the last
  visible one and no white space. -/
  visible : EndsVisible past →
    before = (visible past).getLast? ∧ ∀ c ∈ before, isBlank c = false
  /-- Otherwise it is that white space, and the token is cut off: a string or a pattern, or a
  comment that takes the rest of the source. -/
  blank : ∀ l ∈ lastSignificant past, l.EndsBlank →
    l.IsCutOff ∧ (l.kind = .openComment → rest = []) ∧ before = l.text.getLast?
  /-- Where the last visible character is an operator, or there is none, a pattern is read. -/
  opens : ∀ cs, rest = '/' :: cs → cs.head? ≠ some '/' → cs.head? ≠ some '*' →
    EndsVisible past → MeetsOperator past → first before '/' cs = regex cs
  /-- Where it is none, or the last significant token ends in white space, the slash divides. -/
  divides : ∀ cs, rest = '/' :: cs → cs.head? ≠ some '/' → cs.head? ≠ some '*' →
    ¬(EndsVisible past ∧ MeetsOperator past) → first before '/' cs = ⟨.code, ['/'], cs⟩

/-- **A slash is judged by the last visible character in every state of the scanner**, unless the
last significant token ends in white space. -/
theorem Reached.judged (h : Reached source.toList past before rest) : Judged past before rest where
  visible hends := ⟨h.significant.visible hends, h.significant.isBlank_iff.mpr hends⟩
  blank l hl hends := by
    have hmem : l ∈ past := List.mem_of_mem_filter (List.mem_of_getLast? hl)
    refine ⟨h.significant.cutOff l hl hends, h.eq_nil_of_openComment l hmem, ?_⟩
    rw [h.significant.last, Option.mem_def.mp hl]
    rfl
  opens cs _ hline hblock hends hoperator := by
    rw [first_slash before hline hblock]
    exact if_pos (h.significant.regexMayFollow_iff.mpr ⟨hends, hoperator⟩)
  divides cs _ hline hblock hnot := by
    rw [first_slash before hline hblock]
    exact if_neg fun hregex => hnot (h.significant.regexMayFollow_iff.mp hregex)

/-- A token that is known leads to a state that is. -/
theorem Reached.token_of_eq {source : List Char} {c : Char} {cs : List Char} {l : Lexeme}
    (h : Reached source past before (c :: cs)) (hl : first before c cs = l) :
    Reached source (past ++ [l]) (l.significant before) l.rest := hl ▸ h.token

/-- Behind the comment the last visible character is the sign before it. -/
theorem Reached.judged_comment :
    let source := "a=/*b*//c/"
    let past : List Lexeme := [⟨.code, ['a', '='], ['/', '*', 'b', '*', '/', '/', 'c', '/']⟩,
      ⟨.comment "b", ['/', '*', 'b', '*', '/'], ['/', 'c', '/']⟩]
    Reached source.toList past (some '=') ['/', 'c', '/'] ∧
      Judged past (some '=') ['/', 'c', '/'] := by
  intro source past
  have hsource : source.toList = ['a', '=', '/', '*', 'b', '*', '/', '/', 'c', '/'] := by
    decide +kernel
  have hcode : Reached source.toList (past.take 1) (some '=')
      ['/', '*', 'b', '*', '/', '/', 'c', '/'] := by
    rw [hsource]
    exact Reached.start.token_of_eq rfl
  have h : Reached source.toList past (some '=') ['/', 'c', '/'] := hcode.token_of_eq rfl
  exact ⟨h, h.judged⟩

/-- A slash is misjudged: the last visible character before it is an operator, and it divides all
the same, the significant character being white space. -/
def Misjudges (source : String) : Prop :=
  ∃ past before cs, Reached source.toList past before ('/' :: cs) ∧ cs.head? ≠ some '/' ∧
    cs.head? ≠ some '*' ∧ MeetsOperator past ∧ (∃ c ∈ before, isBlank c = true) ∧
      first before '/' cs = ⟨.code, ['/'], cs⟩

/-- **The last visible character does not decide.** In the first source the string is broken off
behind the equals sign, and in the second one the line is no pattern, but ends in a space. -/
theorem not_visible_significant : Misjudges "'a=\n/x/" ∧ Misjudges "/ab+ \n/x/" := by
  constructor
  · have hsource : "'a=\n/x/".toList = ['\'', 'a', '=', '\n', '/', 'x', '/'] := by decide +kernel
    have h : Reached "'a=\n/x/".toList [⟨.openString, ['\'', 'a', '=', '\n'], ['/', 'x', '/']⟩]
        (some '\n') ['/', 'x', '/'] := by
      rw [hsource]
      exact Reached.start.token_of_eq rfl
    refine ⟨_, _, _, h, by decide, by decide, ?_, ⟨'\n', rfl, by decide⟩, rfl⟩
    intro c hc
    obtain rfl : '=' = c := Option.some.inj hc
    decide
  · have hsource : "/ab+ \n/x/".toList = ['/', 'a', 'b', '+', ' ', '\n', '/', 'x', '/'] := by
      decide +kernel
    have hline : Reached "/ab+ \n/x/".toList
        [⟨.code, ['/', 'a', 'b', '+', ' '], ['\n', '/', 'x', '/']⟩] (some ' ')
        ['\n', '/', 'x', '/'] := by
      rw [hsource]
      exact Reached.start.token_of_eq rfl
    have h : Reached "/ab+ \n/x/".toList
        [⟨.code, ['/', 'a', 'b', '+', ' '], ['\n', '/', 'x', '/']⟩,
          ⟨.blanks, ['\n'], ['/', 'x', '/']⟩] (some ' ') ['/', 'x', '/'] := hline.token_of_eq rfl
    refine ⟨_, _, _, h, by decide, by decide, ?_, ⟨' ', rfl, by decide⟩, rfl⟩
    intro c hc
    obtain rfl : '+' = c := Option.some.inj hc
    decide

end Token

end ApiAnnotation
