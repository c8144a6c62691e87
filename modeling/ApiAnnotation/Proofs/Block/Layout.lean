import ApiAnnotation.Proofs.Block.Sections

/-!
# The layout of a comment

The same lines can be laid out as the body of a comment in many ways: each of them is indented as
one likes, with a star in front or without, and is ended by a line feed or by a carriage return and
a line feed. `ApiAnnotation.LaidOut` says which bodies come about in this way, the choice being free
on every line, and all of them are read alike (`ApiAnnotation.Block.ofComment_eq_of_laidOut`).

What has to be looked at is where two of the choices meet. White space in front of a line may have a
carriage return in it; on an empty line this return can come to stand before the line feed, and is
then taken for a part of the end. And an empty last line that nothing ends is no line at all.

## Main definitions

* `ApiAnnotation.LineText`: what may stand on a line.
* `ApiAnnotation.LaidOut`: the bodies in which given lines are laid out.
-/

namespace ApiAnnotation

variable {line gutter body : List Char} {lines : List (List Char)}

/-- **Texts that can stand on a line** behind a gutter: no break stands in them, and they do not
start with what belongs to a gutter. -/
structure LineText (line : List Char) : Prop where
  /-- No line feed ends the line. -/
  newline : '\n' ∉ line
  /-- No carriage return can be taken for a part of its end. -/
  unreturned : '\r' ∉ line
  /-- The first character, if there is one, is neither white space nor a star. -/
  head : ∀ c ∈ line.head?, isBlank c = false ∧ c ≠ '*'

/-- **Gutters**: white space within a line, and then nothing, a star, or a star and a space. -/
def IsGutter (gutter : List Char) : Prop :=
  ∃ indent mark, gutter = indent ++ mark ∧ (∀ c ∈ indent, isBlank c = true ∧ c ≠ '\n') ∧
    mark ∈ [[], ['*'], ['*', ' ']]

/-- **Lines as they are laid out in a body**: each behind a gutter of its own and with an end of its
own, the last one possibly with none. -/
inductive LaidOut : List (List Char) → List Char → Prop
  /-- Without lines the body is empty. -/
  | nil : LaidOut [] []
  /-- The last line may be left without an end. -/
  | last {gutter line : List Char} : IsGutter gutter → LaidOut [line] (gutter ++ line)
  /-- Any line may be ended by a line feed, with a carriage return before it or without. -/
  | cons {gutter line ending body : List Char} {lines : List (List Char)} :
    IsGutter gutter → ending ∈ [['\n'], ['\r', '\n']] → LaidOut lines body →
      LaidOut (line :: lines) (gutter ++ line ++ ending ++ body)

/-! ### Gutters -/

theorem IsGutter.newline_not_mem (h : IsGutter gutter) : '\n' ∉ gutter := by
  obtain ⟨indent, mark, rfl, hindent, hmark⟩ := h
  rw [List.mem_append]
  rintro (hmem | hmem)
  · exact (hindent _ hmem).2 rfl
  · simp only [List.mem_cons, List.not_mem_nil, or_false] at hmark
    rcases hmark with rfl | rfl | rfl <;> exact absurd hmem (by decide)

/-- A return at the end of a gutter belongs to its white space. -/
theorem IsGutter.dropReturn (h : IsGutter gutter) : IsGutter (Text.dropReturn gutter) := by
  rw [Text.dropReturn]
  split
  · next hlast =>
    obtain ⟨indent, mark, rfl, hindent, hmark⟩ := h
    obtain rfl : mark = [] := by
      simp only [List.mem_cons, List.not_mem_nil, or_false] at hmark
      rcases hmark with rfl | rfl | rfl
      · rfl
      · rw [List.getLast?_append_cons] at hlast
        exact absurd hlast (by decide)
      · rw [List.getLast?_append_cons] at hlast
        exact absurd hlast (by decide)
    refine ⟨indent.dropLast, [], by simp, fun c hc => ?_, List.mem_cons_self⟩
    exact hindent c (List.dropLast_subset indent hc)
  · exact h

/-- **A gutter comes off**, whatever it looks like. -/
theorem IsGutter.stripGutter_append (h : IsGutter gutter) (hline : LineText line) :
    stripGutter (gutter ++ line) = line := by
  obtain ⟨indent, mark, rfl, hindent, hmark⟩ := h
  have hblank : ∀ c ∈ indent, isBlank c = true := fun c hc => (hindent c hc).1
  -- nothing of the line itself can be taken for a part of the gutter
  have hstar : Text.dropLeading '*' line = line := by
    rcases line with _ | ⟨c, line⟩
    · rfl
    · exact if_neg (hline.head c rfl).2
  have hspace : Text.dropLeading ' ' line = line := by
    rcases line with _ | ⟨c, line⟩
    · rfl
    · refine if_neg ?_
      rintro rfl
      exact absurd (hline.head ' ' rfl).1 (by decide)
  rw [stripGutter, List.append_assoc, Text.trimStart_append hblank]
  simp only [List.mem_cons, List.not_mem_nil, or_false] at hmark
  rcases hmark with rfl | rfl | rfl
  · rw [List.nil_append, Text.trimStart_of_head fun c hc => (hline.head c hc).1, hstar, hspace]
  · exact hspace
  · rfl

/-- So it does when a line feed ends the line and a return stands before it. -/
theorem IsGutter.stripGutter_dropReturn (h : IsGutter gutter) (hline : LineText line) :
    stripGutter (Text.dropReturn (gutter ++ line)) = line := by
  by_cases hempty : line = []
  · -- the return is one of the gutter
    subst hempty
    rw [List.append_nil, ← List.append_nil (Text.dropReturn gutter)]
    exact h.dropReturn.stripGutter_append hline
  · have hlast : (gutter ++ line).getLast? ≠ some '\r' := by
      rw [List.getLast?_append_of_ne_nil gutter hempty]
      exact fun hlast => hline.unreturned (List.mem_of_getLast? hlast)
    rw [Text.dropReturn, if_neg hlast]
    exact h.stripGutter_append hline

/-! ### Bodies -/

/-- A line in a body that goes on behind a line feed is a line of it. -/
theorem LineText.lines_append (hline : LineText line) (h : IsGutter gutter) {ending : List Char}
    (hending : ending ∈ [['\n'], ['\r', '\n']]) (body : List Char) :
    (Text.lines (gutter ++ line ++ ending ++ body)).map stripGutter =
      line :: (Text.lines body).map stripGutter := by
  have hbreak : '\n' ∉ gutter ++ line := List.not_mem_append h.newline_not_mem hline.newline
  simp only [List.mem_cons, List.not_mem_nil, or_false] at hending
  rcases hending with rfl | rfl
  · rw [List.append_assoc, List.singleton_append, Text.lines_append_newline,
      List.splitOn_eq_singleton hbreak, List.map_append, List.map_singleton, List.map_singleton,
      h.stripGutter_dropReturn hline]
    rfl
  · have hreturn : Text.dropReturn (gutter ++ line ++ ['\r']) = gutter ++ line := by
      rw [Text.dropReturn, if_pos List.getLast?_concat, List.dropLast_concat]
    have hbreak' : '\n' ∉ gutter ++ line ++ ['\r'] := List.not_mem_append hbreak (by decide)
    have hbody : gutter ++ line ++ ['\r', '\n'] ++ body =
        gutter ++ line ++ ['\r'] ++ '\n' :: body := by simp
    rw [hbody, Text.lines_append_newline, List.splitOn_eq_singleton hbreak', List.map_append,
      List.map_singleton, List.map_singleton, hreturn, h.stripGutter_append hline]
    rfl

/-- **The sections of a body are those of the lines that are laid out in it.** -/
theorem LaidOut.sections_eq (h : LaidOut lines body) (hlines : ∀ line ∈ lines, LineText line) :
    sections ((Text.lines body).map stripGutter) = sections lines := by
  induction h with
  | nil => rfl
  | @last gutter line hgutter =>
    have hline : LineText line := hlines line List.mem_cons_self
    have hbreak : '\n' ∉ gutter ++ line :=
      List.not_mem_append hgutter.newline_not_mem hline.newline
    rw [sections_lines, List.splitOn_eq_singleton hbreak, List.map_singleton, List.map_singleton,
      hgutter.stripGutter_dropReturn hline]
  | @cons gutter line ending body lines hgutter hending _ ih =>
    obtain ⟨hline, hlines⟩ := List.forall_mem_cons.mp hlines
    rw [hline.lines_append hgutter hending]
    exact sections_append_congr (ih hlines) [line]

namespace Block

/-- **The layout of a comment does not change its meaning**: bodies in which the same lines are laid
out are read alike. -/
theorem ofComment_eq_of_laidOut {body body' : String} (hlines : ∀ line ∈ lines, LineText line)
    (h : LaidOut lines body.toList) (h' : LaidOut lines body'.toList) :
    ofComment body = ofComment body' := by
  rw [ofComment_eq, ofComment_eq, h.sections_eq hlines, h'.sections_eq hlines]

/-- The first body has no gutters, and its last line, which is empty, has no end; in the second one
there are gutters of every kind, some of them with a return, and both ends of a line. -/
theorem ofComment_eq_of_laidOut_pets :
    let lines := ["The pets", "", "@param \x7bstring\x7d name", "- of a pet", ""].map String.toList
    let body := "The pets\n\n@param \x7bstring\x7d name\n- of a pet\n"
    let body' :=
      "\t* The pets\r\n \r\n*@param \x7bstring\x7d name\n\u3000\r* - of a pet\r\n *"
    (∀ line ∈ lines, LineText line) ∧ LaidOut lines body.toList ∧ LaidOut lines body'.toList ∧
      ofComment body = ofComment body' := by
  intro lines body body'
  have htext {line : List Char} (hnewline : '\n' ∉ line) (hreturn : '\r' ∉ line)
      (hhead : (line.head?.all fun c => !isBlank c && c != '*') = true) : LineText line :=
    ⟨hnewline, hreturn, fun c hc => by simpa using Option.all_eq_true _ _ |>.mp hhead c hc⟩
  have hlines : ∀ line ∈ lines, LineText line := by
    intro line hline
    simp only [lines, List.map_cons, List.map_nil, List.mem_cons, List.not_mem_nil,
      or_false] at hline
    rcases hline with rfl | rfl | rfl | rfl | rfl <;> exact htext (by decide) (by decide) rfl
  have hgutter (indent mark : List Char)
      (hindent : (indent.all fun c => isBlank c && c != '\n') = true)
      (hmark : mark ∈ [[], ['*'], ['*', ' ']]) : IsGutter (indent ++ mark) :=
    ⟨indent, mark, rfl, fun c hc => by simpa using List.all_eq_true.mp hindent c hc, hmark⟩
  have hbare : IsGutter [] := hgutter [] [] (by decide) (by decide)
  have hfeed : ['\n'] ∈ [['\n'], ['\r', '\n']] := by decide
  have hreturn : ['\r', '\n'] ∈ [['\n'], ['\r', '\n']] := by decide
  have h : LaidOut lines body.toList := by
    have h := @LaidOut.cons _ "The pets".toList _ _ _ hbare hfeed <|
      @LaidOut.cons _ [] _ _ _ hbare hfeed <|
      @LaidOut.cons _ "@param \x7bstring\x7d name".toList _ _ _ hbare hfeed <|
      @LaidOut.cons _ "- of a pet".toList _ _ _ hbare hfeed <| @LaidOut.last _ [] hbare
    convert h using 1
    · rfl
    · decide +kernel
  have h' : LaidOut lines body'.toList := by
    have htab := hgutter ['\t'] ['*', ' '] (by decide) (by decide)
    have hindent := hgutter [' ', '\r'] [] (by decide) (by decide)
    have hstar := hgutter [] ['*'] (by decide) (by decide)
    have hwide := hgutter ['\u3000', '\r'] ['*', ' '] (by decide) (by decide)
    have hend := hgutter [' '] ['*'] (by decide) (by decide)
    have h := @LaidOut.cons _ "The pets".toList _ _ _ htab hreturn <|
      @LaidOut.cons _ [] _ _ _ hindent hfeed <|
      @LaidOut.cons _ "@param \x7bstring\x7d name".toList _ _ _ hstar hfeed <|
      @LaidOut.cons _ "- of a pet".toList _ _ _ hwide hreturn <| @LaidOut.last _ [] hend
    convert h using 1
    · rfl
    · decide +kernel
  exact ⟨hlines, h, h', ofComment_eq_of_laidOut hlines h h'⟩

end Block

end ApiAnnotation
