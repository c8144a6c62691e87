import ApiAnnotation.Proofs.Text.Lines
import ApiAnnotation.Proofs.Text.Trim

/-!
# Texts whose lines end in a carriage return and a line feed

`ApiAnnotation.Text.withReturns` puts a carriage return before every line feed of a text. Both
characters are white space, and neither goes on with a run of code or with the flags of a pattern,
so whatever cuts a text at such places cuts the longer text at the same ones. And the last character
of a text stays the same, as no return is put at its end.

A comment that runs to the end of its line takes the return along, and then the line feed is left
alone at the front of the rest (`ApiAnnotation.Text.Returned`).

## Main statements

* `ApiAnnotation.Text.dropWhile_withReturns`: runs end in the same places.
* `ApiAnnotation.Text.cutAt?_withReturns`: so do comments.
* `ApiAnnotation.Text.lines_withReturns`: the lines are the same.
-/

namespace ApiAnnotation

/-- The carriage return is white space. -/
theorem isBlank_return : isBlank '\r' = true := by decide

namespace Text

/-- The text with a carriage return before every line feed. -/
def withReturns : List Char → List Char
  | [] => []
  | c :: cs => if c = '\n' then '\r' :: '\n' :: withReturns cs else c :: withReturns cs

variable {c : Char} {cs ds : List Char} {p : Char → Bool}

@[simp] theorem withReturns_nil : withReturns [] = [] := rfl

@[simp] theorem withReturns_newline (cs : List Char) :
    withReturns ('\n' :: cs) = '\r' :: '\n' :: withReturns cs := if_pos rfl

theorem withReturns_cons (hc : c ≠ '\n') (cs : List Char) :
    withReturns (c :: cs) = c :: withReturns cs := if_neg hc

theorem withReturns_append (cs ds : List Char) :
    withReturns (cs ++ ds) = withReturns cs ++ withReturns ds := by
  induction cs with
  | nil => rfl
  | cons c cs ih =>
    by_cases hc : c = '\n'
    · subst hc
      rw [List.cons_append, withReturns_newline, withReturns_newline, ih]
      rfl
    · rw [List.cons_append, withReturns_cons hc, withReturns_cons hc, ih]
      rfl

/-- A text of one line has no returns. -/
theorem withReturns_of_not_mem (h : '\n' ∉ cs) : withReturns cs = cs := by
  induction cs with
  | nil => rfl
  | cons c cs ih =>
    rw [List.mem_cons, not_or] at h
    rw [withReturns_cons (Ne.symm h.1), ih h.2]

/-- The longer text starts with the same character, or with a return. -/
theorem head?_withReturns_ne (hreturn : c ≠ '\r') (h : cs.head? ≠ some c) :
    (withReturns cs).head? ≠ some c := by
  rcases cs with _ | ⟨d, cs⟩
  · exact h
  rw [withReturns]
  split
  · exact fun hhead => hreturn (Option.some.inj hhead).symm
  · exact h

/-- **The last character stays the same.** -/
theorem getLast?_withReturns (cs : List Char) : (withReturns cs).getLast? = cs.getLast? := by
  induction cs using List.reverseRecOn with
  | nil => rfl
  | append_singleton cs c _ =>
    rw [withReturns_append, List.getLast?_concat]
    by_cases hc : c = '\n'
    · subst hc
      rw [withReturns_newline, withReturns_nil, List.getLast?_append_cons]
      rfl
    · rw [withReturns_cons hc, withReturns_nil, List.getLast?_concat]

/-- The text with a carriage return before every line feed, as a string. -/
def stringWithReturns (text : String) : String := String.ofList (withReturns text.toList)

theorem stringWithReturns_ofList (cs : List Char) :
    stringWithReturns (String.ofList cs) = String.ofList (withReturns cs) := by
  rw [stringWithReturns, String.toList_ofList]

/-! ### Runs -/

/-- A run that treats the two characters alike is the same run. -/
theorem takeWhile_withReturns (hp : p '\r' = p '\n') (cs : List Char) :
    (withReturns cs).takeWhile p = withReturns (cs.takeWhile p) := by
  induction cs with
  | nil => rfl
  | cons c cs ih =>
    by_cases hc : c = '\n'
    · subst hc
      rw [withReturns_newline, List.takeWhile_cons, List.takeWhile_cons, List.takeWhile_cons, hp,
        ih]
      split
      · rw [withReturns_newline]
      · rfl
    · rw [withReturns_cons hc, List.takeWhile_cons, List.takeWhile_cons, ih]
      split
      · rw [withReturns_cons hc]
      · rfl

/-- **A run that treats the two characters alike ends in the same place.** -/
theorem dropWhile_withReturns (hp : p '\r' = p '\n') (cs : List Char) :
    (withReturns cs).dropWhile p = withReturns (cs.dropWhile p) := by
  induction cs with
  | nil => rfl
  | cons c cs ih =>
    by_cases hc : c = '\n'
    · subst hc
      rw [withReturns_newline, List.dropWhile_cons, List.dropWhile_cons, List.dropWhile_cons, hp,
        ih]
      split
      · rfl
      · rw [withReturns_newline]
    · rw [withReturns_cons hc, List.dropWhile_cons, List.dropWhile_cons, ih]
      split
      · rfl
      · rw [withReturns_cons hc]

/-- The white space at the end of a text is that of the longer one. -/
theorem trimEnd_withReturns (cs : List Char) :
    trimEnd (withReturns cs) = withReturns (trimEnd cs) := by
  -- a trim at the end takes the last character away or stops there
  induction cs using List.reverseRecOn with
  | nil => rfl
  | append_singleton cs c ih =>
    by_cases hc : isBlank c = true
    · have hblank : ∀ b ∈ withReturns [c], isBlank b = true := by
        rw [withReturns]
        split
        · exact List.forall_mem_cons.mpr
            ⟨isBlank_return, List.forall_mem_singleton.mpr isBlank_newline⟩
        · exact List.forall_mem_singleton.mpr hc
      rw [withReturns_append, trimEnd_append hblank, ih, trimEnd_append (by simpa using hc)]
    · have hlast : ∀ b ∈ (cs ++ [c]).getLast?, isBlank b = false := by simpa using hc
      rw [trimEnd_of_last hlast, trimEnd_of_last]
      rwa [getLast?_withReturns]

theorem trim_withReturns (cs : List Char) : trim (withReturns cs) = withReturns (trim cs) := by
  rw [trim, trimStart, dropWhile_withReturns (by decide), trimEnd_withReturns]
  rfl

/-! ### The end of a comment -/

/-- **A comment ends in the same place.** -/
theorem cutAt?_withReturns (cs : List Char) :
    cutAt? ['*', '/'] (withReturns cs) =
      (cutAt? ['*', '/'] cs).map fun (body, rest) => (withReturns body, withReturns rest) := by
  induction cs with
  | nil => rfl
  | cons c cs ih =>
    by_cases hc : c = '\n'
    · subst hc
      have hmark (ds : List Char) : List.isPrefixOf ['*', '/'] ('\n' :: ds) = false := rfl
      have hmark' (ds : List Char) : List.isPrefixOf ['*', '/'] ('\r' :: ds) = false := rfl
      rw [withReturns_newline, cutAt?, cutAt?, cutAt?, hmark, hmark', ih]
      cases cutAt? ['*', '/'] cs <;> rfl
    · -- the mark is in front of the one text if it is in front of the other
      have hmark : List.isPrefixOf ['*', '/'] (c :: withReturns cs) =
          List.isPrefixOf ['*', '/'] (c :: cs) := by
        rcases cs with _ | ⟨d, cs⟩
        · rfl
        · rw [withReturns]
          split
          · next hd => subst hd; rfl
          · rfl
      rw [withReturns_cons hc, cutAt?, cutAt?, hmark, ih]
      split
      · next hfront =>
        obtain ⟨rest, hrest⟩ := List.isPrefixOf_iff_prefix.mp hfront
        obtain ⟨rfl, rfl⟩ : c = '*' ∧ cs = '/' :: rest := by simpa using hrest.symm
        rw [withReturns_cons (by decide)]
        rfl
      · cases hcut : cutAt? ['*', '/'] cs with
        | none => rfl
        | some cut => simp [withReturns_cons hc]

/-! ### Lines -/

/-- The pieces between the line feeds of the longer text have a return at their end, but for the
last. -/
theorem splitOn_withReturns (cs : List Char) :
    ∃ past last, cs.splitOn '\n' = past ++ [last] ∧
      (withReturns cs).splitOn '\n' = past.map (· ++ ['\r']) ++ [last] := by
  induction cs with
  | nil => exact ⟨[], [], rfl, rfl⟩
  | cons c cs ih =>
    obtain ⟨past, last, hsplit, hsplit'⟩ := ih
    by_cases hc : c = '\n'
    · subst hc
      -- the return is not a line feed, so it goes to the piece in front, which is empty so far
      refine ⟨[] :: past, last, ?_, ?_⟩
      · rw [List.splitOn_cons_eq_if_modifyHead, if_pos (by simp), hsplit]
        rfl
      · rw [withReturns_newline, List.splitOn_cons_eq_if_modifyHead, if_neg (by decide),
          List.splitOn_cons_eq_if_modifyHead, if_pos (by simp), hsplit']
        rfl
    · have hne : ¬(c == '\n') = true := by simpa using hc
      rw [withReturns_cons hc, List.splitOn_cons_eq_if_modifyHead,
        List.splitOn_cons_eq_if_modifyHead, if_neg hne, if_neg hne, hsplit, hsplit']
      cases past with
      | nil => exact ⟨[], c :: last, rfl, rfl⟩
      | cons piece past => exact ⟨(c :: piece) :: past, last, rfl, rfl⟩

/-- A return at the end of every piece but the last is taken away. -/
theorem linesOfPieces_map_return {past : List (List Char)} (h : ∀ piece ∈ past, '\r' ∉ piece)
    (last : List Char) :
    linesOfPieces (past.map (· ++ ['\r']) ++ [last]) = linesOfPieces (past ++ [last]) := by
  induction past with
  | nil => rfl
  | cons piece past ih =>
    obtain ⟨hpiece, hpast⟩ := List.forall_mem_cons.mp h
    have ih := ih hpast
    have hreturn : dropReturn (piece ++ ['\r']) = dropReturn piece := by
      rw [dropReturn_of_not_mem hpiece, dropReturn, List.getLast?_concat, if_pos rfl,
        List.dropLast_concat]
    -- a piece is followed by another one on both sides
    cases past with
    | nil => simp only [List.map_cons, List.map_nil, List.nil_append, List.cons_append,
        linesOfPieces, hreturn]
    | cons next past =>
      rw [List.map_cons, List.cons_append, List.cons_append] at ih
      rw [List.map_cons, List.map_cons, List.cons_append, List.cons_append, List.cons_append,
        List.cons_append, linesOfPieces, linesOfPieces, hreturn, ih]

/-- **The lines of a text are the same**, however they end, if no return stands anywhere else. -/
theorem lines_withReturns (h : '\r' ∉ cs) : lines (withReturns cs) = lines cs := by
  obtain ⟨past, last, hsplit, hsplit'⟩ := splitOn_withReturns cs
  rw [lines, lines, hsplit, hsplit']
  refine linesOfPieces_map_return (fun piece hpiece hreturn => h ?_) last
  have hmem : piece ∈ cs.splitOn '\n' := by
    rw [hsplit]
    exact List.mem_append_left _ hpiece
  exact (infix_of_mem_splitOn hmem).subset hreturn

/-! ### A rest of a text -/

/-- **The rest of a text and that of the longer one.** The return in front may be gone. -/
def Returned (cs cs' : List Char) : Prop :=
  cs' = withReturns cs ∨ ∃ tail, cs = '\n' :: tail ∧ cs' = '\n' :: withReturns tail

theorem returned_withReturns (cs : List Char) : Returned cs (withReturns cs) := Or.inl rfl

theorem Returned.eq_nil {cs' : List Char} (h : Returned [] cs') : cs' = [] := by
  rcases h with rfl | ⟨tail, heq, -⟩
  · rfl
  · exact absurd heq (List.cons_ne_nil _ _).symm

theorem Returned.exists_cons {cs' : List Char} (h : Returned (c :: cs) cs') :
    ∃ c' tail', cs' = c' :: tail' := by
  rcases h with rfl | ⟨tail, -, rfl⟩
  · rw [withReturns]
    split <;> exact ⟨_, _, rfl⟩
  · exact ⟨_, _, rfl⟩

/-- A rest that starts with no line feed has lost nothing. -/
theorem Returned.eq_cons {cs' : List Char} (hc : c ≠ '\n') (h : Returned (c :: cs) cs') :
    cs' = c :: withReturns cs := by
  rcases h with rfl | ⟨tail, heq, -⟩
  · exact withReturns_cons hc cs
  · exact absurd (List.cons.inj heq).1 hc

/-- A line that is read to its end takes the return along. -/
theorem returned_dropWhile (cs : List Char) :
    Returned (cs.dropWhile (· ≠ '\n')) ((withReturns cs).dropWhile (· ≠ '\n')) := by
  induction cs with
  | nil => exact returned_withReturns []
  | cons c cs ih =>
    by_cases hc : c = '\n'
    · subst hc
      exact Or.inr ⟨cs, rfl, rfl⟩
    · rw [withReturns_cons hc, List.dropWhile_cons_of_pos (by simpa using hc),
        List.dropWhile_cons_of_pos (by simpa using hc)]
      exact ih

/-- Up to that return the line is the same. -/
theorem takeWhile_ne_withReturns (cs : List Char) :
    (withReturns cs).takeWhile (· ≠ '\n') = cs.takeWhile (· ≠ '\n') ∨
      (withReturns cs).takeWhile (· ≠ '\n') = cs.takeWhile (· ≠ '\n') ++ ['\r'] := by
  induction cs with
  | nil => exact Or.inl rfl
  | cons c cs ih =>
    by_cases hc : c = '\n'
    · subst hc
      exact Or.inr rfl
    · rw [withReturns_cons hc, List.takeWhile_cons_of_pos (by simpa using hc),
        List.takeWhile_cons_of_pos (by simpa using hc)]
      exact ih.imp (congrArg (c :: ·)) (congrArg (c :: ·))

end Text

end ApiAnnotation
