import ApiAnnotation.Proofs.Token.Grammar
import ApiAnnotation.Proofs.Token.States

/-!
# The literals of a source

Where a quote comes next, a string literal is read exactly if one stands there: a content of the
grammar with a closing quote. Where a slash comes next that opens no comment and may open a pattern,
a regular expression literal is read exactly if a pattern of the grammar with a closing slash stands
there. Otherwise the token runs to where the literal is broken off, at the end of the line or of the
source.

This is so of the first token of any text (`ApiAnnotation.Lexeme.recognises_first`), so it is so of
every token of a source, with the text that is left where the token starts
(`ApiAnnotation.Token.recognises_of_mem_scan`).

## Main statements

* `ApiAnnotation.Lexeme.readsString`: string literals.
* `ApiAnnotation.Lexeme.readsPattern`: regular expression literals.
* `ApiAnnotation.Token.recognises_of_mem_scan`: the tokens of a source.
-/

namespace ApiAnnotation

/-- **A text starts with a delimited one**: with a text of a grammar and the mark that ends it, and
goes on behind the mark. -/
structure Delimits (grammar : List Char → Prop) (mark : Char) (cs body after : List Char) :
    Prop where
  /-- What the mark ends is of the grammar. -/
  inner : grammar body
  /-- The mark follows it. -/
  eq : cs = body ++ mark :: after

/-- **A string literal as its grammar has it**, read from the text after its quote. -/
structure Lexeme.ReadsString (quote : Char) (cs : List Char) (l : Lexeme) : Prop where
  /-- The token is a literal exactly if its content stands there with a closing quote. -/
  literal_iff : ∀ content : String, l.kind = .stringLiteral content ↔
    ∃ after, Delimits (StringBody quote) quote cs content.toList after
  /-- There is one such content at most. -/
  unique : ∀ body after body' after', Delimits (StringBody quote) quote cs body after →
    Delimits (StringBody quote) quote cs body' after' → body = body' ∧ after = after'
  /-- The token covers the content and the two quotes. -/
  text : ∀ body after, Delimits (StringBody quote) quote cs body after →
    l.text = quote :: (body ++ [quote])
  /-- Without such a content the literal is open. -/
  openString : (∀ body after, ¬Delimits (StringBody quote) quote cs body after) →
    l.kind = .openString
  /-- In plain quotes it then ends with the first line feed that is not escaped. -/
  broken : (∀ body after, ¬Delimits (StringBody quote) quote cs body after) → quote ≠ '\x60' →
    ∀ body after, Delimits (StringBody quote) '\n' cs body after →
      l.text = quote :: (body ++ ['\n'])
  /-- In backticks, or where there is no such line feed, it ends with the source. -/
  unbroken : (∀ body after, ¬Delimits (StringBody quote) quote cs body after) →
    (quote ≠ '\x60' → ∀ body after, ¬Delimits (StringBody quote) '\n' cs body after) →
    l.text = quote :: cs

/-- **A regular expression literal as its grammar has it**, read from the text after its slash. -/
structure Lexeme.ReadsPattern (cs : List Char) (l : Lexeme) : Prop where
  /-- The token is a literal exactly if its pattern, which is not empty, stands there with a closing
  slash. -/
  literal_iff : ∀ pattern : String, l.kind = .regexLiteral pattern ↔
    pattern ≠ "" ∧ ∃ after, Delimits PatternBody '/' cs pattern.toList after
  /-- There is one such pattern at most. -/
  unique : ∀ body after body' after', Delimits PatternBody '/' cs body after →
    Delimits PatternBody '/' cs body' after' → body = body' ∧ after = after'
  /-- The token covers the pattern, the two slashes, and as many flags as follow. -/
  text : ∀ body after, Delimits PatternBody '/' cs body after →
    l.text = '/' :: (body ++ '/' :: after.takeWhile isAlphanumeric)
  /-- Without such a pattern the slash and the rest of its line are code. -/
  code : (∀ body after, ¬Delimits PatternBody '/' cs body after) →
    l.kind = .code ∧ l.text = '/' :: cs.takeWhile (· ≠ '\n')

/-- **Literals are recognised by their grammars** where the text `c :: cs` comes next: the token
that is read there, `before` being the significant character before it, is a literal exactly where
one is meant. -/
structure Lexeme.Recognises (before : Option Char) (c : Char) (cs : List Char) (l : Lexeme) :
    Prop where
  /-- At a quote a string literal is read. -/
  string : isQuote c = true → ReadsString c cs l
  /-- At a slash that opens no comment a regular expression literal is read where one may follow. -/
  pattern : c = '/' → regexMayFollow before = true → cs.head? ≠ some '/' →
    cs.head? ≠ some '*' → ReadsPattern cs l
  /-- No string literal is found elsewhere. -/
  quote : ∀ content, l.kind = .stringLiteral content → isQuote c = true
  /-- Nor is a regular expression literal. -/
  slash : ∀ pattern, l.kind = .regexLiteral pattern →
    c = '/' ∧ regexMayFollow before = true ∧ cs.head? ≠ some '/' ∧ cs.head? ≠ some '*'

namespace Lexeme

open Content

variable {before : Option Char} {c quote : Char} {cs body after : List Char}

/-! ### String literals -/

theorem ofString_of_delimits (hquote : quote ≠ '\\')
    (h : Delimits (StringBody quote) quote cs body after) :
    ofString quote cs = ⟨body, true, after⟩ := by
  rw [h.eq, ofString_body_append hquote h.inner, ofString_quote, prepend, List.append_nil]

/-- The reader finds a content exactly if there is one. -/
theorem delimits_of_ofString_closed (h : (ofString quote cs).closed = true) :
    Delimits (StringBody quote) quote cs (ofString quote cs).body (ofString quote cs).rest := by
  have hwhole := whole_ofString quote cs
  rw [whole, h] at hwhole
  rcases isString_ofString quote cs with ⟨-, hbody⟩ | ⟨hopen, -⟩
  · exact ⟨hbody, by simpa using hwhole.symm⟩
  · rw [h] at hopen
    exact absurd hopen.symm Bool.false_ne_true

theorem ne_of_isQuote (hquote : isQuote quote = true) : quote ≠ '\\' ∧ quote ≠ '\n' := by
  constructor <;> rintro rfl <;> exact absurd hquote (by decide)

theorem string_of_delimits (hquote : isQuote quote = true)
    (h : Delimits (StringBody quote) quote cs body after) :
    string quote cs = ⟨.stringLiteral (String.ofList body), quote :: body ++ [quote], after⟩ := by
  rw [string, ofString_of_delimits (ne_of_isQuote hquote).1 h]
  rfl

theorem closed_ofString_eq_false
    (h : ∀ body after, ¬Delimits (StringBody quote) quote cs body after) :
    (ofString quote cs).closed = false :=
  Bool.eq_false_iff.mpr fun hclosed => h _ _ (delimits_of_ofString_closed hclosed)

theorem string_of_not_delimits
    (h : ∀ body after, ¬Delimits (StringBody quote) quote cs body after) :
    string quote cs =
      ⟨.openString, quote :: (ofString quote cs).body, (ofString quote cs).rest⟩ := by
  rw [string, if_neg (Bool.eq_false_iff.mp (closed_ofString_eq_false h))]

/-- **At a quote a string literal is read.** -/
theorem readsString (hquote : isQuote quote = true) (cs : List Char) :
    ReadsString quote cs (string quote cs) where
  literal_iff content := by
    constructor
    · intro hkind
      have hclosed : (ofString quote cs).closed = true := by
        by_contra hclosed
        rw [string, if_neg hclosed] at hkind
        exact Token.Kind.noConfusion hkind
      have h := delimits_of_ofString_closed hclosed
      rw [string_of_delimits hquote h] at hkind
      obtain rfl := Token.Kind.stringLiteral.inj hkind
      exact ⟨_, by rwa [String.toList_ofList]⟩
    · rintro ⟨after, h⟩
      rw [string_of_delimits hquote h, String.ofList_toList]
  unique body after body' after' h h' := by
    -- both are what the reader takes
    have hescape := (ne_of_isQuote hquote).1
    have heq := (ofString_of_delimits hescape h).symm.trans (ofString_of_delimits hescape h')
    exact ⟨congrArg Content.body heq, congrArg Content.rest heq⟩
  text body after h := by
    rw [string_of_delimits hquote h]
    rfl
  openString h := by
    rw [string_of_not_delimits h]
  broken h hplain body after hbreak := by
    obtain ⟨hescape, hfeed⟩ := ne_of_isQuote hquote
    have hcontent : ofString quote cs = ⟨body ++ ['\n'], false, after⟩ := by
      rw [hbreak.eq, ofString_body_append hescape hbreak.inner, ofString_newline hfeed,
        if_neg hplain]
      rfl
    rw [string_of_not_delimits h, hcontent]
  unbroken h hnone := by
    have hopen := closed_ofString_eq_false h
    have hwhole := whole_ofString quote cs
    rw [whole, hopen] at hwhole
    rcases isString_ofString quote cs with ⟨hclosed, -⟩ | ⟨-, hrest | ⟨hplain, body, hbody, heq⟩⟩
    · rw [hopen] at hclosed
      exact absurd hclosed Bool.false_ne_true
    · rw [string_of_not_delimits h]
      simpa [hrest] using hwhole
    · -- a line feed that is not escaped would have been found
      refine absurd ⟨hbody, ?_⟩ (hnone hplain body (ofString quote cs).rest)
      rw [heq] at hwhole
      simpa using hwhole.symm

/-! ### Regular expression literals -/

theorem ofRegex_of_delimits (h : Delimits PatternBody '/' cs body after) :
    ofRegex false cs = ⟨body, true, after⟩ := by
  rw [h.eq, ofRegex_body_append h.inner, ofRegex_slash, prepend, List.append_nil]

theorem delimits_of_ofRegex_closed (h : (ofRegex false cs).closed = true) :
    Delimits PatternBody '/' cs (ofRegex false cs).body (ofRegex false cs).rest := by
  have hwhole := whole_ofRegex false cs
  rw [whole, h] at hwhole
  exact ⟨patternRest_ofRegex h, by simpa using hwhole.symm⟩

/-- A pattern that is not closed takes the rest of its line. -/
theorem body_ofRegex_of_not_closed (h : (ofRegex false cs).closed = false) :
    (ofRegex false cs).body = cs.takeWhile (· ≠ '\n') := by
  have hwhole := whole_ofRegex false cs
  rw [whole, h, cond_false, List.append_nil] at hwhole
  have hbody : ∀ c ∈ (ofRegex false cs).body, decide (c ≠ '\n') = true := by
    intro c hc
    have hne : c ≠ '\n' := by
      rintro rfl
      exact newline_not_mem_body_ofRegex false cs hc
    simpa using hne
  have hrest : (ofRegex false cs).rest.takeWhile (· ≠ '\n') = [] := by
    have hhead := head?_rest_ofRegex h
    rcases hcons : (ofRegex false cs).rest with _ | ⟨c, rest⟩
    · rfl
    · rw [hcons] at hhead
      exact List.takeWhile_cons_of_neg (by simpa using hhead c rfl)
  calc (ofRegex false cs).body
      = ((ofRegex false cs).body ++ (ofRegex false cs).rest).takeWhile (· ≠ '\n') := by
        rw [List.takeWhile_append_of_pos hbody, hrest, List.append_nil]
    _ = cs.takeWhile (· ≠ '\n') := by rw [hwhole]

theorem regex_of_delimits (h : Delimits PatternBody '/' cs body after) :
    regex cs = ⟨.regexLiteral (String.ofList body),
      '/' :: body ++ '/' :: after.takeWhile isAlphanumeric, after.dropWhile isAlphanumeric⟩ := by
  rw [regex, ofRegex_of_delimits h]
  rfl

/-- **At a slash that opens no comment a regular expression literal is read.** -/
theorem readsPattern (hline : cs.head? ≠ some '/') : ReadsPattern cs (regex cs) where
  literal_iff pattern := by
    constructor
    · intro hkind
      have hclosed : (ofRegex false cs).closed = true := by
        by_contra hclosed
        rw [regex, if_neg hclosed] at hkind
        exact Token.Kind.noConfusion hkind
      have h := delimits_of_ofRegex_closed hclosed
      rw [regex_of_delimits h] at hkind
      obtain rfl := Token.Kind.regexLiteral.inj hkind
      refine ⟨?_, _, by rwa [String.toList_ofList]⟩
      -- an empty pattern would make the two slashes the start of a comment
      intro hempty
      have heq := h.eq
      rw [String.ofList_eq_empty_iff.mp hempty] at heq
      exact hline (by rw [heq]; rfl)
    · rintro ⟨-, after, h⟩
      rw [regex_of_delimits h, String.ofList_toList]
  unique body after body' after' h h' := by
    have heq := (ofRegex_of_delimits h).symm.trans (ofRegex_of_delimits h')
    exact ⟨congrArg Content.body heq, congrArg Content.rest heq⟩
  text body after h := by
    rw [regex_of_delimits h]
    rfl
  code h := by
    have hopen : (ofRegex false cs).closed = false :=
      Bool.eq_false_iff.mpr fun hclosed => h _ _ (delimits_of_ofRegex_closed hclosed)
    rw [regex, if_neg (Bool.eq_false_iff.mp hopen)]
    exact ⟨rfl, congrArg _ (body_ofRegex_of_not_closed hopen)⟩

/-! ### Tokens -/

theorem kind_closedComment (opening : List Char) (kind : List Char → Token.Kind) (cs : List Char) :
    (closedComment opening kind cs).kind = .openComment ∨
      ∃ body, (closedComment opening kind cs).kind = kind body := by
  rw [closedComment]
  split
  · exact Or.inl rfl
  · next body rest _ => exact Or.inr ⟨body, rfl⟩

/-- What a slash and a star open is a comment. -/
theorem kind_blockComment_ne_regexLiteral (cs : List Char) (pattern : String) :
    (blockComment cs).kind ≠ .regexLiteral pattern := by
  have hne (opening : List Char) (kind : List Char → Token.Kind)
      (hkind : ∀ body, kind body ≠ .regexLiteral pattern) (cs : List Char) :
      (closedComment opening kind cs).kind ≠ .regexLiteral pattern := by
    rcases kind_closedComment opening kind cs with h | ⟨body, h⟩
    · rw [h]
      exact Token.Kind.noConfusion
    · rw [h]
      exact hkind body
  simp only [blockComment]
  split
  · exact hne _ _ (fun _ => Token.Kind.noConfusion) _
  · exact hne _ _ (fun _ => Token.Kind.noConfusion) _
  · exact hne _ _ (fun _ => Token.Kind.noConfusion) _

/-- Where a regular expression literal is found, it was looked for. -/
theorem slash_of_kind_first {pattern : String}
    (h : (first before c cs).kind = .regexLiteral pattern) :
    c = '/' ∧ regexMayFollow before = true ∧ cs.head? ≠ some '/' ∧ cs.head? ≠ some '*' := by
  have hreads := reads_first before c cs
  rw [h] at hreads
  obtain ⟨flags, htext, -⟩ := hreads
  obtain rfl : '/' = c := by
    have hhead := head?_text_first before c cs
    rw [htext] at hhead
    exact Option.some.inj hhead
  -- after two slashes or a slash and a star there would be a comment
  have hline : cs.head? ≠ some '/' := by
    intro hhead
    obtain ⟨cs, rfl⟩ := List.head?_eq_some_iff.mp hhead
    exact Token.Kind.noConfusion h
  have hblock : cs.head? ≠ some '*' := by
    intro hhead
    obtain ⟨cs, rfl⟩ := List.head?_eq_some_iff.mp hhead
    exact kind_blockComment_ne_regexLiteral cs pattern h
  refine ⟨rfl, ?_, hline, hblock⟩
  by_contra hbefore
  rw [first_slash before hline hblock, if_neg hbefore] at h
  exact Token.Kind.noConfusion h

/-- **The first token of a text is recognised by the grammars.** -/
theorem recognises_first (before : Option Char) (c : Char) (cs : List Char) :
    Recognises before c cs (first before c cs) where
  string hquote := by
    have hslash : c ≠ '/' := by
      rintro rfl
      exact absurd hquote (by decide)
    rw [first_of_ne_slash before hslash, if_pos hquote]
    exact readsString hquote cs
  pattern hslash hregex hline hblock := by
    subst hslash
    rw [first_slash before hline hblock, if_pos hregex]
    exact readsPattern hline
  quote content hkind := by
    -- a string literal starts with its quote, and a token with the first character
    have hreads := reads_first before c cs
    have hhead := head?_text_first before c cs
    rw [hkind] at hreads
    obtain ⟨quote, hquote, htext⟩ := hreads
    rw [htext] at hhead
    obtain rfl : quote = c := by simpa using hhead
    exact hquote
  slash pattern := slash_of_kind_first

end Lexeme

namespace Token

open Lexeme (joined)

/-- **The literals among the tokens of a source are those of the grammars.** Every token before the
end of the source is cut off the text that is left where it starts, and it is a literal exactly if
the grammar has one there. -/
theorem recognises_of_mem_scan {source : String} {t : Token} (ht : t ∈ scan source)
    (hkind : t.kind ≠ .endOfSource) :
    ∃ past before c cs l, Reached source.toList past before (c :: cs) ∧
      joined past ++ c :: cs = source.toList ∧ l.text ++ l.rest = c :: cs ∧
      t = l.placed (byteLength (joined past)) ∧ Lexeme.Recognises before c cs l := by
  rcases mem_scan_iff.mp ht with rfl | ⟨past, before, c, cs, h, rfl⟩
  · exact absurd rfl hkind
  · exact ⟨past, before, c, cs, Lexeme.first before c cs, h, h.joined_append,
      Lexeme.text_append_rest_first before c cs, rfl, Lexeme.recognises_first before c cs⟩

/-- In the pattern after the plus sign a slash stands in brackets and another one is escaped. -/
theorem recognises_of_mem_scan_brackets :
    let source := "s='/'+/[/\"]\\//g"
    let t : Token := ⟨.regexLiteral "[/\"]\\/", 6, 15⟩
    t ∈ scan source ∧ t.kind ≠ .endOfSource ∧
      ∃ past before c cs l, Reached source.toList past before (c :: cs) ∧
        joined past ++ c :: cs = source.toList ∧ l.text ++ l.rest = c :: cs ∧
        t = l.placed (byteLength (joined past)) ∧ Lexeme.Recognises before c cs l := by
  intro source t
  have ht : t ∈ scan source := by decide +kernel
  have hkind : t.kind ≠ .endOfSource := Token.Kind.noConfusion
  exact ⟨ht, hkind, recognises_of_mem_scan ht hkind⟩

end Token

end ApiAnnotation
