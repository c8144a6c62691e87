import ApiAnnotation.Proofs.Token.Concat

/-!
# Texts with the same front

A token that ends before its text does is the same whatever the text goes on with
(`ApiAnnotation.Lexeme.first_append`). Here is the converse: a token that ends before the front of a
longer text does is also the token of the front alone, and so of every text with that front.

The reason is that a reader which comes to the end of the front without having found the end of its
token has taken all of the front, and takes no less when more text follows
(`ApiAnnotation.Lexeme.length_rest_first_append_le`). So what it leaves of the longer text is no
longer than what was added.

Where white space ends, texts with the same front therefore have the same tokens up to there
(`ApiAnnotation.Token.exists_scanFrom_of_blanks`). Behind other tokens this is not so: a run of code
may go on in one of the texts and not in the other.

## Main statements

* `ApiAnnotation.Lexeme.length_rest_first_append_le`: a token that takes all of a text takes at
  least that of a longer one.
* `ApiAnnotation.Lexeme.first_append_of_rest`: a token within the front of a text is one of every
  text with that front.
* `ApiAnnotation.Token.exists_scanFrom_of_blanks`: where white space ends, the text may go on
  otherwise.
-/

namespace ApiAnnotation

universe u

/-- A run over all of a text goes on into the text after it. -/
theorem length_dropWhile_append_le {α : Type u} {p : α → Bool} {l : List α}
    (h : l.dropWhile p = []) (more : List α) :
    ((l ++ more).dropWhile p).length ≤ more.length := by
  rw [List.dropWhile_append, if_pos (List.isEmpty_iff.mpr h)]
  exact (List.dropWhile_sublist p).length_le

namespace Content

variable {cs : List Char}

theorem length_rest_ofString_le (quote : Char) (cs : List Char) :
    (ofString quote cs).rest.length ≤ cs.length := by
  have hwhole := congrArg List.length (whole_ofString quote cs)
  rw [whole, List.length_append] at hwhole
  omega

theorem length_rest_ofRegex_le (inClass : Bool) (cs : List Char) :
    (ofRegex inClass cs).rest.length ≤ cs.length := by
  have hwhole := congrArg List.length (whole_ofRegex inClass cs)
  rw [whole, List.length_append] at hwhole
  omega

/-- A string literal that takes all of a text takes at least that of a longer one. -/
theorem length_rest_ofString_append_le {quote : Char} (h : (ofString quote cs).rest = [])
    (more : List Char) : (ofString quote (cs ++ more)).rest.length ≤ more.length := by
  fun_induction ofString quote cs with
  | case1 => exact length_rest_ofString_le quote more
  | case2 cs =>
    obtain rfl : cs = [] := h
    rw [List.cons_append, ofString.eq_def]
    simp
  | case3 hquote =>
    -- the backslash takes a character that was added
    rcases more with _ | ⟨e, more⟩
    · rw [List.append_nil, ofString, if_neg hquote, if_pos rfl]
    · rw [List.cons_append, List.nil_append, ofString, if_neg hquote, if_pos rfl]
      exact Nat.le_succ_of_le (length_rest_ofString_le quote more)
  | case4 e cs hquote ih =>
    rw [List.cons_append, List.cons_append, ofString, if_neg hquote, if_pos rfl]
    exact ih h
  | case5 c cs hquote hescape hbreak =>
    obtain rfl : cs = [] := h
    rw [List.cons_append, ofString.eq_def]
    simp only [if_neg hquote, if_neg hescape, if_pos hbreak]
    exact Nat.le_refl _
  | case6 c cs hquote hescape hbreak ih =>
    rw [List.cons_append, ofString.eq_def]
    simp only [if_neg hquote, if_neg hescape, if_neg hbreak]
    exact ih h

/-- So does a pattern. -/
theorem length_rest_ofRegex_append_le {inClass : Bool} (h : (ofRegex inClass cs).rest = [])
    (more : List Char) : (ofRegex inClass (cs ++ more)).rest.length ≤ more.length := by
  fun_induction ofRegex inClass cs with
  | case1 => exact length_rest_ofRegex_le _ more
  | case2 => exact absurd h (List.cons_ne_nil _ _)
  | case3 inClass c cs hbreak hclose =>
    obtain rfl : cs = [] := h
    rw [List.cons_append, ofRegex.eq_def]
    simp only [if_neg hbreak, if_pos hclose]
    exact Nat.le_refl _
  | case4 inClass hbreak hclose =>
    rw [List.cons_append, List.nil_append, ofRegex.eq_def]
    simp only [if_neg hbreak, if_neg hclose]
    rcases more with _ | ⟨e, more⟩
    · exact Nat.le_refl 0
    · show (if e = '\n' then _ else _ : Content).rest.length ≤ _
      split
      · exact Nat.le_refl _
      · exact Nat.le_succ_of_le (length_rest_ofRegex_le _ more)
  | case5 => exact absurd h (List.cons_ne_nil _ _)
  | case6 inClass e cs hbreak hbreak' hclose ih =>
    rw [List.cons_append, List.cons_append, ofRegex, if_neg hbreak', if_neg hclose, if_pos rfl,
      if_neg hbreak]
    exact ih h
  | case7 inClass c cs hbreak hclose hescape ih =>
    rw [List.cons_append, ofRegex.eq_def]
    simp only [if_neg hbreak, if_neg hclose, if_neg hescape]
    exact ih h

end Content

namespace Lexeme

open Content

variable {c : Char} {cs : List Char}

/-! ### A token that takes all of a text -/

theorem length_rest_closedComment_le (opening : List Char) (kind : List Char → Token.Kind)
    (cs : List Char) : (closedComment opening kind cs).rest.length ≤ cs.length := by
  have htext := congrArg List.length (text_append_rest_closedComment opening kind cs)
  rw [closedComment] at htext ⊢
  split at htext
  · exact Nat.zero_le _
  · simp at htext ⊢
    omega

theorem length_rest_closedComment_append_le {opening : List Char} {kind : List Char → Token.Kind}
    (h : (closedComment opening kind cs).rest = []) (more : List Char) :
    (closedComment opening kind (cs ++ more)).rest.length ≤ more.length := by
  rw [closedComment]
  rcases hcut : Text.cutAt? ['*', '/'] (cs ++ more) with _ | ⟨body, rest⟩
  · exact Nat.zero_le _
  · show rest.length ≤ more.length
    by_contra hlonger
    -- then the end of the comment was found in the front, and something after it
    obtain ⟨mid, rfl⟩ : more <:+ rest := by
      have hrest : rest <:+ cs ++ more := ⟨_, (Text.eq_append_of_cutAt? hcut).symm⟩
      exact List.suffix_of_suffix_length_le (List.suffix_append cs more) hrest (by omega)
    rw [closedComment, Text.cutAt?_of_append (by simp) hcut] at h
    obtain rfl : mid = [] := h
    simp at hlonger

/-- What a star opens that follows the opening of a comment takes at least the star. -/
theorem length_rest_blockComment_star_le (cs : List Char) :
    (blockComment ('*' :: cs)).rest.length ≤ cs.length := by
  rcases cs with _ | ⟨d, cs⟩
  · exact Nat.le_refl 0
  by_cases hslash : d = '/'
  · subst hslash
    exact Nat.le_succ _
  · rw [blockComment_star hslash]
    exact length_rest_closedComment_le _ _ _

theorem length_rest_blockComment_le (cs : List Char) :
    (blockComment cs).rest.length ≤ cs.length := by
  rcases cs with _ | ⟨c, cs⟩
  · exact Nat.le_refl 0
  by_cases hstar : c = '*'
  · subst hstar
    exact Nat.le_succ_of_le (length_rest_blockComment_star_le cs)
  · rw [blockComment_of_ne_star hstar]
    exact length_rest_closedComment_le _ _ _

theorem length_rest_blockComment_append_le (h : (blockComment cs).rest = []) (more : List Char) :
    (blockComment (cs ++ more)).rest.length ≤ more.length := by
  rcases cs with _ | ⟨c, cs⟩
  · exact length_rest_blockComment_le more
  by_cases hstar : c = '*'
  · subst hstar
    rcases cs with _ | ⟨d, cs⟩
    · exact length_rest_blockComment_star_le more
    by_cases hslash : d = '/'
    · subst hslash
      exact length_rest_closedComment_append_le h more
    · rw [blockComment_star hslash] at h
      rw [List.cons_append, List.cons_append, blockComment_star hslash, ← List.cons_append]
      exact length_rest_closedComment_append_le h more
  · rw [blockComment_of_ne_star hstar] at h
    rw [List.cons_append, blockComment_of_ne_star hstar, ← List.cons_append]
    exact length_rest_closedComment_append_le h more

theorem length_rest_string_append_le {quote : Char} (h : (string quote cs).rest = [])
    (more : List Char) : (string quote (cs ++ more)).rest.length ≤ more.length := by
  have hrest : ∀ cs, (string quote cs).rest = (ofString quote cs).rest := fun cs => by
    simp only [string]
    split <;> rfl
  rw [hrest] at h ⊢
  exact length_rest_ofString_append_le h more

/-- What is left after a pattern and its flags. -/
theorem rest_regex (cs : List Char) :
    (regex cs).rest = if (ofRegex false cs).closed
      then (ofRegex false cs).rest.dropWhile isAlphanumeric else (ofRegex false cs).rest := by
  simp only [regex]
  split <;> rfl

theorem length_rest_regex_le (cs : List Char) :
    (regex cs).rest.length ≤ (ofRegex false cs).rest.length := by
  rw [rest_regex]
  split
  · exact (List.dropWhile_sublist _).length_le
  · exact Nat.le_refl _

theorem length_rest_regex_append_le (h : (regex cs).rest = []) (more : List Char) :
    (regex (cs ++ more)).rest.length ≤ more.length := by
  by_cases hrest : (ofRegex false cs).rest = []
  · exact (length_rest_regex_le _).trans (length_rest_ofRegex_append_le hrest more)
  · -- the pattern ends in the text, and its flags go on over the end
    have hcontent := ofRegex_append hrest more
    rw [rest_regex] at h ⊢
    rw [hcontent]
    split at h
    · next hclosed =>
      rw [if_pos (show ((ofRegex false cs).extend more).closed = true from hclosed)]
      exact length_dropWhile_append_le h more
    · exact absurd h hrest

/-- **A token that takes all of a text takes at least that of a longer one.** -/
theorem length_rest_first_append_le {before : Option Char} (h : (first before c cs).rest = [])
    (more : List Char) : (first before c (cs ++ more)).rest.length ≤ more.length := by
  by_cases hslash : c = '/'
  · subst hslash
    rcases cs with _ | ⟨d, cs⟩
    · exact Nat.le_of_lt_succ (length_rest_first_lt before '/' more)
    by_cases hline : d = '/'
    · subst hline
      exact length_dropWhile_append_le h more
    by_cases hblock : d = '*'
    · subst hblock
      exact length_rest_blockComment_append_le h more
    have hfirst : ∀ cs, first before '/' (d :: cs) =
        if regexMayFollow before then regex (d :: cs) else ⟨.code, ['/'], d :: cs⟩ :=
      fun cs => first_slash before (by simpa using hline) (by simpa using hblock)
    rw [hfirst] at h
    rw [List.cons_append, hfirst]
    by_cases hregex : regexMayFollow before = true
    · rw [if_pos hregex] at h ⊢
      exact length_rest_regex_append_le h more
    · rw [if_neg hregex] at h
      exact absurd h (List.cons_ne_nil d cs)
  · rw [first_of_ne_slash before hslash] at h ⊢
    by_cases hquote : isQuote c = true
    · rw [if_pos hquote] at h ⊢
      exact length_rest_string_append_le h more
    · rw [if_neg hquote] at h ⊢
      by_cases hblank : isBlank c = true
      · rw [if_pos hblank] at h ⊢
        exact length_dropWhile_append_le h more
      · rw [if_neg hblank] at h ⊢
        exact length_dropWhile_append_le h more

/-! ### A token within the front of a text -/

/-- **A token within the front of a text** is a token of every text with that front. -/
theorem first_append_of_rest {before : Option Char} {more rest : List Char} (hrest : rest ≠ [])
    (h : (first before c (cs ++ more)).rest = rest ++ more) (other : List Char) :
    first before c (cs ++ other) =
      { first before c (cs ++ more) with rest := rest ++ other } := by
  have hends : (first before c cs).rest ≠ [] := by
    intro hnil
    have hle := length_rest_first_append_le hnil more
    rw [h, List.length_append] at hle
    exact hrest (List.length_eq_zero_iff.mp (by omega))
  rw [first_append hends] at h ⊢
  rw [first_append hends]
  obtain rfl : (first before c cs).rest = rest := List.append_cancel_right h
  rfl

end Lexeme

/-! ### Text that goes on otherwise -/

namespace Lexeme

variable {before : Option Char} {c : Char} {front more : List Char}

/-- White space that is all of the front ends there before any text that starts with none. -/
theorem first_append_of_blanks (h : first before c (front ++ more) = ⟨.blanks, c :: front, more⟩)
    {other : List Char} (hother : ∀ d ∈ other.head?, isBlank d = false) :
    first before c (front ++ other) = ⟨.blanks, c :: front, other⟩ := by
  have hreads := reads_first before c (front ++ more)
  rw [h] at hreads
  obtain ⟨hc, hfront⟩ := List.forall_mem_cons.mp hreads.1
  have hstopped : other.takeWhile isBlank = [] ∧ other.dropWhile isBlank = other := by
    rcases other with _ | ⟨d, other⟩
    · exact ⟨rfl, rfl⟩
    · have hd := Bool.eq_false_iff.mp (hother d rfl)
      exact ⟨List.takeWhile_cons_of_neg hd, List.dropWhile_cons_of_neg hd⟩
  rw [first_of_isBlank before hc, run, List.takeWhile_append_of_pos hfront,
    List.dropWhile_append_of_pos hfront, hstopped.1, hstopped.2, List.append_nil]

/-- A token that is as long as a front of the text leaves the rest of the text. -/
theorem first_eq_of_byteLength
    (h : byteLength (first before c (front ++ more)).text = byteLength (c :: front)) :
    first before c (front ++ more) =
      ⟨(first before c (front ++ more)).kind, c :: front, more⟩ := by
  have hwhole := text_append_rest_first before c (front ++ more)
  rw [← List.cons_append] at hwhole
  have htext := eq_of_append_of_byteLength hwhole h
  have hrest : (first before c (front ++ more)).rest = more := by
    rw [htext] at hwhole
    exact List.append_cancel_left hwhole
  generalize first before c (front ++ more) = lexeme at htext hrest ⊢
  obtain ⟨kind, text, rest⟩ := lexeme
  obtain rfl : text = c :: front := htext
  obtain rfl : rest = more := hrest
  rfl

/-- One that is shorter leaves some of the front. -/
theorem exists_rest_first_eq
    (h : byteLength (first before c (front ++ more)).text < byteLength (c :: front)) :
    ∃ mid, mid ≠ [] ∧ (first before c (front ++ more)).rest = mid ++ more ∧
      byteLength (c :: front) =
        byteLength (first before c (front ++ more)).text + byteLength mid := by
  have hwhole := text_append_rest_first before c (front ++ more)
  rw [← List.cons_append] at hwhole
  rcases List.append_eq_append_iff.mp hwhole with ⟨mid, hfront, hrest⟩ | ⟨mid, htext, -⟩
  · have hbytes := congrArg byteLength hfront
    rw [byteLength_append] at hbytes
    refine ⟨mid, ?_, hrest, hbytes⟩
    rintro rfl
    rw [byteLength_nil] at hbytes
    omega
  · have hbytes := congrArg byteLength htext
    rw [byteLength_append] at hbytes
    omega

end Lexeme

namespace Token

variable {t : Token} {past later : List Token}

/-- A token that covers anything stops behind the start of the text. -/
theorem Tiles.lt_stop {offset : Nat} {cs : List Char} {tokens : List Token}
    (h : Tiles offset cs tokens) (ht : t ∈ tokens) (hkind : t.kind ≠ .endOfSource) :
    offset < t.stop := by
  induction h with
  | done offset =>
    obtain rfl := List.mem_singleton.mp ht
    exact absurd rfl hkind
  | @token offset kind text after tokens htext _ _ ih =>
    rcases List.mem_cons.mp ht with rfl | ht
    · exact Nat.lt_add_of_pos_right (byteLength_pos htext)
    · exact Nat.lt_of_le_of_lt (Nat.le_add_right _ _) (ih ht)

/-- **Where white space ends, the text may go on otherwise**: the tokens up to there stay, unless
more white space comes, and the others are those of the text that comes. -/
theorem exists_scanFrom_of_blanks {before : Option Char} {offset : Nat} {cs more : List Char}
    (h : scanFrom before offset (cs ++ more) = past ++ t :: later) (hkind : t.kind = .blanks)
    (hstop : t.stop = offset + byteLength cs) :
    ∃ before', later = scanFrom before' (offset + byteLength cs) more ∧
      ∀ other, (∀ d ∈ other.head?, isBlank d = false) →
        scanFrom before offset (cs ++ other) =
          past ++ t :: scanFrom before' (offset + byteLength cs) other := by
  have hlt : ∀ {before offset cs past}, scanFrom before offset cs = past ++ t :: later →
      offset < t.stop := fun {before offset cs past} heq =>
    (tiles_scanFrom before offset cs).lt_stop (heq ▸ by simp) (hkind ▸ Kind.noConfusion)
  induction past generalizing before offset cs with
  | nil =>
    rcases cs with _ | ⟨c, cs⟩
    · exact absurd hstop (Nat.ne_of_gt (hlt h))
    rw [List.cons_append, scanFrom_cons] at h
    obtain ⟨rfl, rfl⟩ := List.cons.inj h
    -- the token is all of the front
    have hfirst := Lexeme.first_eq_of_byteLength (Nat.add_left_cancel hstop)
    rw [show (Lexeme.first before c (cs ++ more)).kind = .blanks from hkind] at hfirst
    refine ⟨before, ?_, fun other hother => ?_⟩
    · rw [hfirst, Lexeme.significant_blanks before rfl]
    · rw [List.cons_append, scanFrom_cons, Lexeme.first_append_of_blanks hfirst hother, hfirst,
        Lexeme.significant_blanks before rfl]
      rfl
  | cons p past ih =>
    rcases cs with _ | ⟨c, cs⟩
    · exact absurd hstop (Nat.ne_of_gt (hlt h))
    rw [List.cons_append, scanFrom_cons] at h
    obtain ⟨rfl, hlater⟩ := List.cons.inj h
    -- white space follows within the front, so this token ends before the front does
    have hshort : byteLength (Lexeme.first before c (cs ++ more)).text < byteLength (c :: cs) := by
      have := hlt hlater
      omega
    obtain ⟨mid, hmid, hrest, hbytes⟩ := Lexeme.exists_rest_first_eq hshort
    rw [hrest] at hlater
    obtain ⟨before', hlater', hother'⟩ := ih hlater (by omega)
    rw [Nat.add_assoc, ← hbytes] at hlater' hother'
    refine ⟨before', hlater', fun other hother => ?_⟩
    rw [List.cons_append, scanFrom_cons, Lexeme.first_append_of_rest hmid hrest other,
      List.cons_append, ← hother' other hother]
    rfl

end Token

end ApiAnnotation
