import ApiAnnotation.Proofs.Token.Finished
import ApiAnnotation.Proofs.Token.Tiling

/-!
# The tokens of two texts in a row

A text cannot be scanned in two parts that are cut just anywhere. If the first part ends in white
space, it can: its other tokens are followed by something and so are finished, and its last token
grows by the white space at the front of the second part, which is all that happens to it. So the
tokens of the parts are those of the whole once white space is left out
(`ApiAnnotation.Token.withoutBlanks_scanFrom_append`).

The second part is then scanned with a significant character before it. All this character is used
for is to tell whether a slash opens a regular expression (`ApiAnnotation.Token.scanFrom_congr`), so
it makes no difference if it is an operator.

## Main statements

* `ApiAnnotation.Token.withoutBlanks_scanFrom_append`: the tokens of two texts in a row.
* `ApiAnnotation.Token.significantAfter_eq`: the significant character before the second part is the
  last one of the last significant token.
* `ApiAnnotation.Token.withoutBlanks_scan_append`: the tokens of two sources in a row.
-/

namespace ApiAnnotation

namespace Lexeme

theorem isBlank_eq_false_of_isQuote {quote : Char} (h : isQuote quote = true) :
    isBlank quote = false := by
  rw [isQuote, Bool.or_eq_true, Bool.or_eq_true, beq_iff_eq, beq_iff_eq, beq_iff_eq] at h
  rcases h with (rfl | rfl) | rfl
  · decide
  · decide
  · decide

/-- White space is read without looking at the text before it. -/
theorem first_of_isBlank (before : Option Char) {c : Char} (hc : isBlank c = true)
    (cs : List Char) : first before c cs = run .blanks isBlank c cs := by
  have hslash : c ≠ '/' := by
    rintro rfl
    exact absurd hc (by decide)
  have hquote : ¬isQuote c = true := fun hquote =>
    Bool.false_ne_true ((isBlank_eq_false_of_isQuote hquote).symm.trans hc)
  rw [first_of_ne_slash before hslash, if_neg hquote, if_pos hc]

theorem text_first_ne_nil (before : Option Char) (c : Char) (cs : List Char) :
    (first before c cs).text ≠ [] := by
  intro hnil
  have hhead := head?_text_first before c cs
  rw [hnil] at hhead
  exact absurd hhead.symm (Option.some_ne_none c)

/-- White space is not significant. -/
theorem significant_blanks (before : Option Char) {lexeme : Lexeme}
    (h : lexeme.kind = .blanks) : lexeme.significant before = before := by
  rw [significant, isSignificant, h]
  rfl

end Lexeme

namespace Token

variable {before : Option Char} {offset : Nat} {cs more : List Char}

/-- The first token of a text, and those of the rest. -/
theorem scanFrom_cons (before : Option Char) (offset : Nat) (c : Char) (cs : List Char) :
    scanFrom before offset (c :: cs) =
      ⟨(Lexeme.first before c cs).kind, offset,
          offset + byteLength (Lexeme.first before c cs).text⟩ ::
        scanFrom ((Lexeme.first before c cs).significant before)
          (offset + byteLength (Lexeme.first before c cs).text)
            (Lexeme.first before c cs).rest := by
  rw [scanFrom]

/-- Before the end of the source come the other tokens. -/
theorem scanFrom_eq_dropLast_append (before : Option Char) (offset : Nat) (cs : List Char) :
    scanFrom before offset cs = (scanFrom before offset cs).dropLast ++
      [⟨.endOfSource, offset + byteLength cs, offset + byteLength cs⟩] := by
  refine (List.dropLast_append_getLast? _ ?_).symm
  exact Option.mem_def.mpr (tiles_scanFrom before offset cs).getLast?

/-- There always is a token, if only the end of the source. -/
theorem scanFrom_ne_nil (before : Option Char) (offset : Nat) (cs : List Char) :
    scanFrom before offset cs ≠ [] := by
  rw [scanFrom_eq_dropLast_append]
  exact List.append_ne_nil_of_right_ne_nil _ (List.cons_ne_nil _ _)

/-- A text that is not empty has a token before the end of the source. -/
theorem dropLast_scanFrom_ne_nil (before : Option Char) (offset : Nat) (h : cs ≠ []) :
    (scanFrom before offset cs).dropLast ≠ [] := by
  obtain ⟨c, cs, rfl⟩ := List.exists_cons_of_ne_nil h
  rw [scanFrom_cons, List.dropLast_cons_of_ne_nil (scanFrom_ne_nil _ _ _)]
  exact List.cons_ne_nil _ _

/-! ### White space left out -/

/-- The tokens but for white space. -/
def withoutBlanks (tokens : List Token) : List Token :=
  tokens.filter fun t => t.kind ≠ .blanks

theorem withoutBlanks_cons_of_blanks {t : Token} (h : t.kind = .blanks) (tokens : List Token) :
    withoutBlanks (t :: tokens) = withoutBlanks tokens :=
  List.filter_cons_of_neg (by simpa using h)

theorem withoutBlanks_cons (t : Token) (tokens : List Token) :
    withoutBlanks (t :: tokens) = withoutBlanks [t] ++ withoutBlanks tokens := by
  rw [← List.singleton_append, withoutBlanks, List.filter_append]
  rfl

/-- White space at the front of a text moves its tokens and does nothing else. -/
theorem withoutBlanks_scanFrom (before : Option Char) (offset : Nat) (cs : List Char) :
    withoutBlanks (scanFrom before offset cs) =
      withoutBlanks (scanFrom before (offset + byteLength (cs.takeWhile isBlank))
        (cs.dropWhile isBlank)) := by
  rcases cs with _ | ⟨c, cs⟩
  · rfl
  by_cases hc : isBlank c = true
  · rw [scanFrom_cons, Lexeme.first_of_isBlank before hc, withoutBlanks_cons_of_blanks rfl,
      Lexeme.significant_blanks before rfl, List.takeWhile_cons_of_pos hc,
      List.dropWhile_cons_of_pos hc]
    rfl
  · rw [List.takeWhile_cons_of_neg hc, List.dropWhile_cons_of_neg hc]
    rfl

theorem withoutBlanks_scanFrom_blanks_append (before : Option Char) (offset : Nat)
    (hcs : ∀ c ∈ cs, isBlank c = true) (more : List Char) :
    withoutBlanks (scanFrom before offset (cs ++ more)) =
      withoutBlanks (scanFrom before (offset + byteLength cs) more) := by
  rw [withoutBlanks_scanFrom, List.takeWhile_append_of_pos hcs, List.dropWhile_append_of_pos hcs,
    byteLength_append, ← Nat.add_assoc, ← withoutBlanks_scanFrom]

/-! ### One text after the other -/

/-- The significant character after a text, the one before it being given. -/
def significantAfter (before : Option Char) : List Char → Option Char
  | [] => before
  | c :: cs =>
    let lexeme := Lexeme.first before c cs
    significantAfter (lexeme.significant before) lexeme.rest
termination_by cs => cs.length
decreasing_by exact Lexeme.length_rest_first_lt before c cs

/-- **The tokens of two texts in a row**, but for white space, if white space ends the first. -/
theorem withoutBlanks_scanFrom_append (before : Option Char) (offset : Nat) (cs more : List Char)
    (h : ∀ t ∈ (scanFrom before offset cs).dropLast.getLast?, t.kind = .blanks) :
    withoutBlanks (scanFrom before offset (cs ++ more)) =
      withoutBlanks (scanFrom before offset cs).dropLast ++
        withoutBlanks (scanFrom (significantAfter before cs) (offset + byteLength cs) more) := by
  fun_induction scanFrom before offset cs with
  | case1 before offset => rw [significantAfter]; rfl
  | case2 before offset c cs lexeme stop ih =>
    have htext : lexeme.text ++ lexeme.rest = c :: cs := Lexeme.text_append_rest_first before c cs
    rw [List.dropLast_cons_of_ne_nil (scanFrom_ne_nil _ _ _)] at h ⊢
    have hafter : significantAfter before (c :: cs) =
        significantAfter (lexeme.significant before) lexeme.rest := by
      rw [significantAfter]
    by_cases hrest : lexeme.rest = []
    · -- the token is the last one, so it is white space, and so is all the text
      have hkind : lexeme.kind = .blanks := by
        refine h ⟨lexeme.kind, offset, stop⟩ ?_
        rw [hrest, scanFrom]
        rfl
      have hblank : ∀ b ∈ c :: cs, isBlank b = true := by
        have hreads := Lexeme.reads_first before c cs
        rw [show (Lexeme.first before c cs).kind = .blanks from hkind] at hreads
        rw [← htext, hrest, List.append_nil]
        exact hreads.1
      rw [withoutBlanks_scanFrom_blanks_append before offset hblank, hafter, hrest,
        Lexeme.significant_blanks before hkind, significantAfter, scanFrom,
        withoutBlanks_cons_of_blanks hkind]
      rfl
    · -- the token is followed by something, so it is finished
      have hfirst : Lexeme.first before c (cs ++ more) = lexeme.extend more :=
        Lexeme.first_append hrest more
      have hlater : ∀ t ∈ (scanFrom (lexeme.significant before) stop lexeme.rest).dropLast.getLast?,
          t.kind = .blanks := by
        intro t ht
        refine h t ?_
        rwa [List.getLast?_cons_of_ne_nil (dropLast_scanFrom_ne_nil _ _ hrest)]
      have hlength : offset + byteLength (c :: cs) = stop + byteLength lexeme.rest := by
        rw [← htext, byteLength_append, ← Nat.add_assoc]
      rw [List.cons_append, scanFrom_cons, hfirst, hafter, hlength, withoutBlanks_cons,
        withoutBlanks_cons _ (List.dropLast _), List.append_assoc, ← ih hlater]
      rfl

/-! ### What the text before the second one is for -/

/-- **A text is scanned alike** wherever a slash may open a regular expression. -/
theorem scanFrom_congr (before : Option Char) (offset : Nat) (cs : List Char) :
    ∀ before', Lexeme.regexMayFollow before = Lexeme.regexMayFollow before' →
      scanFrom before offset cs = scanFrom before' offset cs := by
  fun_induction scanFrom before offset cs with
  | case1 before offset =>
    intro before' _
    rw [scanFrom]
  | case2 before offset c cs lexeme stop ih =>
    intro before' h
    have hfirst : Lexeme.first before' c cs = lexeme := by
      simp only [lexeme, Lexeme.first, h]
    rw [scanFrom_cons, hfirst]
    refine congrArg _ (ih _ ?_)
    rw [Lexeme.significant, Lexeme.significant]
    split
    · rfl
    · exact h

/-- Where a text starts moves its tokens and does nothing else. -/
def shift (distance : Nat) (t : Token) : Token where
  kind := t.kind
  start := distance + t.start
  stop := distance + t.stop

theorem scanFrom_add (before : Option Char) (distance offset : Nat) (cs : List Char) :
    scanFrom before (distance + offset) cs =
      (scanFrom before offset cs).map (shift distance) := by
  fun_induction scanFrom before offset cs with
  | case1 => rw [scanFrom]; rfl
  | case2 before offset c cs lexeme stop ih =>
    rw [scanFrom_cons, Nat.add_assoc, ih]
    rfl

/-! ### The last significant token -/

/-- Whether a token counts when a slash after it is read: white space, closed comments and the end
of the source do not. -/
def isSignificant (t : Token) : Bool :=
  match t.kind with
  | .blanks | .comment _ | .docComment _ | .endOfSource => false
  | _ => true

theorem isSignificant_first (before : Option Char) (c : Char) (cs : List Char) (start stop : Nat) :
    isSignificant ⟨(Lexeme.first before c cs).kind, start, stop⟩ =
      (Lexeme.first before c cs).isSignificant := by
  have hkind :=
    (Lexeme.reads_first before c cs).ne_endOfSource (Lexeme.text_first_ne_nil before c cs)
  rw [isSignificant, Lexeme.isSignificant]
  cases h : (Lexeme.first before c cs).kind with
  | endOfSource => exact absurd h hkind
  | _ => rfl

/-- **The significant character after a text** is the last one of its last significant token. -/
theorem significantAfter_eq (before : Option Char) (offset : Nat) (cs : List Char) :
    match ((scanFrom before offset cs).filter (·.isSignificant)).getLast? with
    | none => significantAfter before cs = before
    | some t => ∃ front back, cs = front ++ back ∧ front ≠ [] ∧
        t.stop = offset + byteLength front ∧ significantAfter before cs = front.getLast? := by
  fun_induction scanFrom before offset cs with
  | case1 before offset =>
    show significantAfter before [] = before
    rw [significantAfter]
  | case2 before offset c cs lexeme stop ih =>
    have htext : lexeme.text ++ lexeme.rest = c :: cs := Lexeme.text_append_rest_first before c cs
    have hne : lexeme.text ≠ [] := Lexeme.text_first_ne_nil before c cs
    have hsignificant : isSignificant ⟨lexeme.kind, offset, stop⟩ = lexeme.isSignificant :=
      isSignificant_first before c cs offset stop
    have hafter : significantAfter before (c :: cs) =
        significantAfter (lexeme.significant before) lexeme.rest := by
      rw [significantAfter]
    rw [List.filter_cons, hsignificant, hafter]
    generalize (scanFrom (lexeme.significant before) stop lexeme.rest).filter (·.isSignificant) =
      later at ih
    rcases hlast : later.getLast? with _ | t
    · -- no later token counts
      rw [hlast] at ih
      have hrest : significantAfter (lexeme.significant before) lexeme.rest =
        lexeme.significant before := ih
      rw [hrest, Lexeme.significant]
      by_cases hcounts : lexeme.isSignificant = true
      · rw [if_pos hcounts, if_pos hcounts, List.getLast?_cons, hlast]
        exact ⟨lexeme.text, lexeme.rest, htext.symm, hne, rfl, rfl⟩
      · rw [if_neg hcounts, if_neg hcounts, hlast]
    · rw [hlast] at ih
      obtain ⟨front, back, hrest, hfront, hstop, hlater⟩ := ih
      have hfound : ∃ front back, c :: cs = front ++ back ∧ front ≠ [] ∧
          t.stop = offset + byteLength front ∧
          significantAfter (lexeme.significant before) lexeme.rest = front.getLast? := by
        refine ⟨lexeme.text ++ front, back, ?_, List.append_ne_nil_of_left_ne_nil hne _, ?_, ?_⟩
        · rw [← htext, hrest, List.append_assoc]
        · rw [hstop, byteLength_append, ← Nat.add_assoc]
        · rw [hlater, List.getLast?_append_of_ne_nil _ hfront]
      by_cases hcounts : lexeme.isSignificant = true
      · rw [if_pos hcounts, List.getLast?_cons, hlast]
        exact hfound
      · rw [if_neg hcounts, hlast]
        exact hfound

/-! ### Two sources in a row -/

/-- **A token of a source ends with a character**: it is the last one before the place where the
token stops. -/
def EndsWith (source : String) (c : Char) (t : Token) : Prop :=
  ∃ front back : String, source = front ++ back ∧ front.utf8ByteSize = t.stop ∧
    front.toList.getLast? = some c

/-- What a token ends with is the last character of the text up to its end. -/
theorem EndsWith.eq {source : String} {c : Char} {t : Token} (h : t.EndsWith source c)
    {front back : List Char} (hsource : source.toList = front ++ back)
    (hstop : t.stop = byteLength front) : front.getLast? = some c := by
  obtain ⟨front', back', rfl, hsize, hlast⟩ := h
  have hbytes : byteLength front'.toList = byteLength front := by
    rw [byteLength_toList, hsize, hstop]
  rw [String.toList_append] at hsource
  rwa [← eq_of_append_of_byteLength hsource hbytes]

/-- **Sources that another one may follow**: at their end, scanning is in the state in which it
starts. -/
structure EndsAfresh (source : String) : Prop where
  /-- The last token, if there is one before the end of the source, is white space. -/
  blanks : ∀ t ∈ (scan source).dropLast.getLast?, t.kind = .blanks
  /-- The last significant token, if there is one, ends with an operator. -/
  operator : ∀ t ∈ ((scan source).filter (·.isSignificant)).getLast?,
    ∃ c ∈ Lexeme.operators, t.EndsWith source c

variable {source : String}

/-- A slash opens a regular expression after the source as it does at the start of one. -/
theorem EndsAfresh.regexMayFollow (h : EndsAfresh source) :
    Lexeme.regexMayFollow (significantAfter none source.toList) = Lexeme.regexMayFollow none := by
  have hafter := significantAfter_eq none 0 source.toList
  split at hafter
  · rw [hafter]
  · next t ht =>
    obtain ⟨front, back, hsource, -, hstop, hlast⟩ := hafter
    obtain ⟨c, hc, hends⟩ := h.operator t ht
    rw [Nat.zero_add] at hstop
    rw [hlast, hends.eq hsource hstop]
    exact List.contains_iff_mem.mpr hc

/-- **The tokens of two sources in a row**, but for white space, if the second one starts afresh. -/
theorem withoutBlanks_scan_append (h : EndsAfresh source) (more : String) :
    withoutBlanks (scan (source ++ more)) = withoutBlanks (scan source).dropLast ++
      withoutBlanks ((scan more).map (shift source.utf8ByteSize)) := by
  have hsize : 0 + byteLength source.toList = source.utf8ByteSize + 0 := by
    rw [byteLength_toList, Nat.add_comm]
  rw [scan, String.toList_append, withoutBlanks_scanFrom_append none 0 _ _ h.blanks, hsize,
    scanFrom_add, scanFrom_congr _ _ _ _ h.regexMayFollow]
  rfl

end Token

end ApiAnnotation
