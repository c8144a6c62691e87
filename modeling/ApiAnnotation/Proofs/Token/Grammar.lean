import ApiAnnotation.Proofs.Token.Returns

/-!
# The grammars of literals

A string literal and a regular expression literal are read by going over their characters one after
the other. Which texts are literals can be said without a reader, by what may stand between the
marks: escapes, which take the next character with them, and all characters that do not end the
literal. In a pattern there are also classes in brackets, in which a slash is a character like any
other.

The reader of a string takes `ApiAnnotation.StringBody` and stops where the grammar has to stop: at
the quote, and in plain quotes at a line feed too. The reader of a pattern remembers whether a
bracket is open; what it closes is `ApiAnnotation.PatternBody`, in which the brackets are matched by
the grammar itself.

## Main statements

* `ApiAnnotation.Content.ofString_body_append`, `ApiAnnotation.Content.ofRegex_body_append`: what
  the grammar has is read.
* `ApiAnnotation.Content.isString_ofString`, `ApiAnnotation.Content.patternRest_ofRegex`: what is
  read is of the grammar.
-/

namespace ApiAnnotation

/-! ### Grammars -/

/-- **The content of a string literal**: escapes, which are a backslash and any character, and other
characters that are neither the quote nor, in plain quotes, a line feed. -/
inductive StringBody (quote : Char) : List Char → Prop
  /-- The content may be empty. -/
  | nil : StringBody quote []
  /-- An escape takes any character with it. -/
  | escape (c : Char) {body : List Char} :
    StringBody quote body → StringBody quote ('\\' :: c :: body)
  /-- Any other character stands for itself. -/
  | plain {c : Char} {body : List Char} : c ≠ quote → c ≠ '\\' → (quote ≠ '\x60' → c ≠ '\n') →
    StringBody quote body → StringBody quote (c :: body)

/-- **What stands between the brackets of a class**: escapes and characters other than the closing
bracket. -/
inductive ClassBody : List Char → Prop
  /-- A class may be empty. -/
  | nil : ClassBody []
  /-- An escape takes any character with it that does not end the line. -/
  | escape {c : Char} {body : List Char} : c ≠ '\n' → ClassBody body → ClassBody ('\\' :: c :: body)
  /-- Any other character stands for itself, a slash too. -/
  | plain {c : Char} {body : List Char} : c ≠ '\n' → c ≠ '\\' → c ≠ ']' →
    ClassBody body → ClassBody (c :: body)

/-- **The pattern of a regular expression literal**: escapes, classes in brackets, and other
characters that are neither the slash nor an opening bracket. -/
inductive PatternBody : List Char → Prop
  /-- There may be nothing left. -/
  | nil : PatternBody []
  /-- An escape takes any character with it that does not end the line. -/
  | escape {c : Char} {body : List Char} : c ≠ '\n' → PatternBody body →
    PatternBody ('\\' :: c :: body)
  /-- A class is read up to the bracket that closes it. -/
  | brackets {inside body : List Char} : ClassBody inside → PatternBody body →
    PatternBody ('[' :: (inside ++ ']' :: body))
  /-- Any other character stands for itself. -/
  | plain {c : Char} {body : List Char} : c ≠ '\n' → c ≠ '/' → c ≠ '\\' → c ≠ '[' →
    PatternBody body → PatternBody (c :: body)

namespace Content

variable {quote : Char} {body cs : List Char}

@[simp] theorem prepend_nil (content : Content) : content.prepend [] = content := rfl

@[simp] theorem prepend_prepend (front back : List Char) (content : Content) :
    (content.prepend back).prepend front = content.prepend (front ++ back) := by
  simp [prepend]

/-! ### String literals -/

/-- The reader takes what the grammar has and goes on behind it. -/
theorem ofString_body_append (hquote : quote ≠ '\\') (h : StringBody quote body)
    (more : List Char) :
    ofString quote (body ++ more) = (ofString quote more).prepend body := by
  induction h with
  | nil => rfl
  | escape c _ ih =>
    rw [List.cons_append, List.cons_append, ofString, if_neg hquote.symm, if_pos rfl, ih,
      prepend_prepend]
    rfl
  | plain hc hescape hbreak _ ih =>
    rw [List.cons_append, ofString.eq_def]
    have hline := fun h : _ = '\n' ∧ quote ≠ '\x60' => hbreak h.2 h.1
    refine (if_neg hc).trans ((if_neg hescape).trans ((if_neg hline).trans ?_))
    rw [ih, prepend_prepend]
    rfl

/-- The closing quote ends it. -/
theorem ofString_quote (quote : Char) (after : List Char) :
    ofString quote (quote :: after) = ⟨[], true, after⟩ := by
  rw [ofString.eq_def]
  exact if_pos rfl

/-- **A content as the grammar of strings has it**: up to a closing quote, the line feed that breaks
the literal off, or the end of the text. -/
def IsString (quote : Char) (content : Content) : Prop :=
  content.closed = true ∧ StringBody quote content.body ∨
    content.closed = false ∧ (content.rest = [] ∨
      quote ≠ '\x60' ∧ ∃ body, StringBody quote body ∧ content.body = body ++ ['\n'])

/-- What the grammar puts in front of a content goes in front of this one too. -/
theorem IsString.prepend {content : Content} {front : List Char} (h : content.IsString quote)
    (hfront : ∀ body, StringBody quote body → StringBody quote (front ++ body)) :
    (content.prepend front).IsString quote := by
  rcases h with ⟨hclosed, hbody⟩ | ⟨hopen, hrest | ⟨hplain, body, hbody, heq⟩⟩
  · exact Or.inl ⟨hclosed, hfront _ hbody⟩
  · exact Or.inr ⟨hopen, Or.inl hrest⟩
  · refine Or.inr ⟨hopen, Or.inr ⟨hplain, _, hfront body hbody, ?_⟩⟩
    rw [Content.prepend, heq, List.append_assoc]

/-- **What the reader takes is in the grammar.** -/
theorem isString_ofString (quote : Char) (cs : List Char) : (ofString quote cs).IsString quote := by
  fun_induction ofString quote cs with
  | case1 => exact Or.inr ⟨rfl, Or.inl rfl⟩
  | case2 cs => exact Or.inl ⟨rfl, StringBody.nil⟩
  | case3 => exact Or.inr ⟨rfl, Or.inl rfl⟩
  | case4 e cs hquote ih => exact ih.prepend fun _ => StringBody.escape e
  | case5 c cs hquote hescape hbreak =>
    obtain ⟨rfl, hplain⟩ := hbreak
    exact Or.inr ⟨rfl, Or.inr ⟨hplain, [], StringBody.nil, rfl⟩⟩
  | case6 c cs hquote hescape hbreak ih =>
    have hline : quote ≠ '\x60' → c ≠ '\n' := fun hplain hc => hbreak ⟨hc, hplain⟩
    exact ih.prepend fun _ => StringBody.plain hquote hescape hline

/-! ### Patterns -/

/-- Within brackets the reader takes what the grammar has. -/
theorem ofRegex_class_append (h : ClassBody body) (more : List Char) :
    ofRegex true (body ++ more) = (ofRegex true more).prepend body := by
  induction h with
  | nil => rfl
  | escape hc _ ih =>
    rw [List.cons_append, List.cons_append, ofRegex, if_neg (by decide), if_neg (by decide),
      if_pos rfl, if_neg hc, ih, prepend_prepend]
    rfl
  | plain hbreak hescape hclose _ ih =>
    rw [List.cons_append, ofRegex_cons hbreak (by simp) hescape, if_neg hclose, ite_self, ih,
      prepend_prepend]
    rfl

/-- So it does outside of them. -/
theorem ofRegex_body_append (h : PatternBody body) (more : List Char) :
    ofRegex false (body ++ more) = (ofRegex false more).prepend body := by
  induction h with
  | nil => rfl
  | escape hc _ ih =>
    rw [List.cons_append, List.cons_append, ofRegex, if_neg (by decide), if_neg (by decide),
      if_pos rfl, if_neg hc, ih, prepend_prepend]
    rfl
  | @brackets inside body hinside _ ih =>
    rw [List.cons_append, List.append_assoc, List.cons_append,
      ofRegex_cons (by decide) (by decide) (by decide), if_pos rfl, ofRegex_class_append hinside,
      ofRegex_cons (by decide) (by decide) (by decide), if_neg (by decide), if_pos rfl, ih]
    simp
  | plain hbreak hslash hescape hopen _ ih =>
    rw [List.cons_append, ofRegex_cons hbreak (fun h => hslash h.1) hescape, if_neg hopen,
      ite_self, ih, prepend_prepend]
    rfl

/-- The closing slash ends it. -/
theorem ofRegex_slash (after : List Char) : ofRegex false ('/' :: after) = ⟨[], true, after⟩ := by
  rw [ofRegex.eq_def]
  exact (if_neg (by decide)).trans (if_pos ⟨rfl, rfl⟩)

/-- **What is left of a pattern**, a bracket being open or not: an open one is closed further on. -/
def PatternRest : Bool → List Char → Prop
  | false, body => PatternBody body
  | true, body => ∃ inside rest, body = inside ++ ']' :: rest ∧ ClassBody inside ∧ PatternBody rest

theorem PatternRest.escape {inClass : Bool} {c : Char} (hc : c ≠ '\n')
    (h : PatternRest inClass body) : PatternRest inClass ('\\' :: c :: body) := by
  cases inClass with
  | false => exact PatternBody.escape hc h
  | true =>
    obtain ⟨inside, rest, rfl, hinside, hrest⟩ := h
    exact ⟨'\\' :: c :: inside, rest, rfl, ClassBody.escape hc hinside, hrest⟩

theorem PatternRest.cons {inClass : Bool} {c : Char} (hbreak : c ≠ '\n')
    (hclose : ¬(c = '/' ∧ inClass = false)) (hescape : c ≠ '\\')
    (h : PatternRest (if c = '[' then true else if c = ']' then false else inClass) body) :
    PatternRest inClass (c :: body) := by
  cases inClass with
  | false =>
    by_cases hopen : c = '['
    · -- the class that is opened here is closed further on
      subst hopen
      obtain ⟨inside, rest, rfl, hinside, hrest⟩ := h
      exact PatternBody.brackets hinside hrest
    · rw [if_neg hopen, ite_self] at h
      exact PatternBody.plain hbreak (fun hslash => hclose ⟨hslash, rfl⟩) hescape hopen h
  | true =>
    by_cases hend : c = ']'
    · subst hend
      exact ⟨[], body, rfl, ClassBody.nil, h⟩
    · rw [if_neg hend, ite_self] at h
      obtain ⟨inside, rest, rfl, hinside, hrest⟩ := h
      exact ⟨c :: inside, rest, rfl, ClassBody.plain hbreak hescape hend hinside, hrest⟩

/-- **A closed pattern is in the grammar.** -/
theorem patternRest_ofRegex {inClass : Bool} (hclosed : (ofRegex inClass cs).closed = true) :
    PatternRest inClass (ofRegex inClass cs).body := by
  fun_induction ofRegex inClass cs with
  | case1 => exact absurd hclosed Bool.false_ne_true
  | case2 => exact absurd hclosed Bool.false_ne_true
  | case3 inClass c cs hbreak hclose =>
    obtain ⟨-, rfl⟩ := hclose
    exact PatternBody.nil
  | case4 => exact absurd hclosed Bool.false_ne_true
  | case5 => exact absurd hclosed Bool.false_ne_true
  | case6 inClass e cs he hbreak hclose ih => exact (ih hclosed).escape he
  | case7 inClass c cs hbreak hclose hescape ih => exact (ih hclosed).cons hbreak hclose hescape

/-- A pattern does not go on over the end of its line. -/
theorem newline_not_mem_body_ofRegex (inClass : Bool) (cs : List Char) :
    '\n' ∉ (ofRegex inClass cs).body := by
  fun_induction ofRegex inClass cs with
  | case1 => exact List.not_mem_nil
  | case2 => exact List.not_mem_nil
  | case3 => exact List.not_mem_nil
  | case4 => simp
  | case5 => simp
  | case6 inClass e cs he hbreak hclose ih =>
    exact List.not_mem_cons_of_ne_of_not_mem (by decide)
      (List.not_mem_cons_of_ne_of_not_mem (Ne.symm he) ih)
  | case7 inClass c cs hbreak hclose hescape ih =>
    exact List.not_mem_cons_of_ne_of_not_mem (Ne.symm hbreak) ih

end Content

end ApiAnnotation
