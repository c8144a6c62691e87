import ApiAnnotation.Proofs.Block.Parts

/-!
# The sections of a comment

The lines of a comment fall into sections: one for the text of the block, and one for each
directive. Every section is trimmed before it is read, so white space at its end makes no
difference, whether it is an empty line, the gutter of one, or a carriage return that no line feed
follows. `ApiAnnotation.sections` leaves it out and is all that a comment is read by
(`ApiAnnotation.Block.ofComment_eq`).

A directive could take in what does not belong to it in two ways, and neither happens. A type that
is not closed is not looked for beyond the section that it stands in, and how the line before a
section ends is white space at the end of the section before. So bodies can be put together
(`ApiAnnotation.Block.ofComment_append`).

## Main statements

* `ApiAnnotation.Directive.ofText_append`: white space at the end of a directive is not read.
* `ApiAnnotation.sections_lines`: how the last line of a body ends is not read.
* `ApiAnnotation.Block.ofComment_append`: a directive does not reach into the next body.
-/

namespace ApiAnnotation

variable {back line : List Char} {ls ls' : List (List Char)}

/-! ### White space at the end of a directive -/

theorem exists_takeType_append (hback : ∀ c ∈ back, isBlank c = true) (title : String)
    (cs : List Char) :
    ∃ back', (∀ c ∈ back', isBlank c = true) ∧
      takeType title (cs ++ back) = ((takeType title cs).1, (takeType title cs).2 ++ back') := by
  obtain ⟨back', hback', hstart⟩ := Text.exists_trimStart_append hback cs
  -- a brace that is not closed by the text is not closed by white space either
  have hbrace : '}' ∉ back' := fun hmem => absurd (hback' _ hmem) (by decide)
  rw [takeType, takeType, hstart, braced?_append_of_not_mem hbrace]
  by_cases htitle : takesType title = true
  · rw [if_pos htitle, if_pos htitle]
    rcases braced? (Text.trimStart cs) with _ | ⟨inside, after⟩
    · exact ⟨back, hback, rfl⟩
    · exact ⟨back', hback', rfl⟩
  · rw [if_neg htitle, if_neg htitle]
    exact ⟨back, hback, rfl⟩

theorem exists_takeName_append (hback : ∀ c ∈ back, isBlank c = true) (title : String)
    (cs : List Char) :
    ∃ back', (∀ c ∈ back', isBlank c = true) ∧
      takeName title (cs ++ back) = ((takeName title cs).1, (takeName title cs).2 ++ back') := by
  rw [takeName, takeName]
  split
  · obtain ⟨back', hback', hstart⟩ := Text.exists_trimStart_append hback cs
    have hends : ∀ c ∈ back'.head?, (!isBlank c) = false := fun c hc => by
      simp [hback' c (List.mem_of_head? hc)]
    obtain ⟨htake, hdrop⟩ := takeWhile_dropWhile_append_of_head hends (Text.trimStart cs)
    refine ⟨back', hback', ?_⟩
    simp only [hstart, htake, hdrop]
  · exact ⟨back, hback, rfl⟩

namespace Directive

/-- **White space at the end of a directive is not read.** It is handed on from title to type to
name and is trimmed with the description. -/
theorem ofText_append (hback : ∀ c ∈ back, isBlank c = true) (text : List Char) :
    ofText (text ++ back) = ofText text := by
  obtain ⟨back₁, hback₁, htext⟩ := Text.exists_dropLeading_append hback '@' text
  have hends : ∀ c ∈ back₁.head?, isTitleChar c = false := fun c hc =>
    Bool.eq_false_iff.mpr fun htitle => Bool.false_ne_true
      ((isBlank_of_isTitleChar htitle).symm.trans (hback₁ c (List.mem_of_head? hc)))
  obtain ⟨htitle, hafter⟩ :=
    takeWhile_dropWhile_append_of_head hends (Text.dropLeading '@' text)
  rw [ofText, ofText]
  simp only [htext, htitle, hafter]
  generalize String.ofList ((Text.dropLeading '@' text).takeWhile isTitleChar) = title
  generalize (Text.dropLeading '@' text).dropWhile isTitleChar = afterTitle
  obtain ⟨back₂, hback₂, htype⟩ := exists_takeType_append hback₁ title afterTitle
  obtain ⟨back₃, hback₃, hname⟩ :=
    exists_takeName_append hback₂ title (takeType title afterTitle).2
  simp only [htype, hname, Text.trim_append hback₃]

theorem ofText_trimEnd (text : List Char) : ofText (Text.trimEnd text) = ofText text := by
  obtain ⟨back, hback, htext⟩ := Text.exists_eq_trimEnd_append text
  calc ofText (Text.trimEnd text)
    _ = ofText (Text.trimEnd text ++ back) := (ofText_append hback _).symm
    _ = ofText text := by rw [← htext]

end Directive

/-! ### Sections -/

/-- **The sections of the lines of a comment**: what stands in front of the first directive, with a
line feed before each line, and the text of each directive. White space at the end of a section is
left out. -/
def sections (ls : List (List Char)) : List Char × List (List Char) :=
  (Text.trimEnd ((chunks ls).1.flatMap ('\n' :: ·)),
    (chunks ls).2.map fun chunk => Text.trimEnd (Text.joinLines chunk))

/-- A line opens a section, to which the lines in front then belong, or stands in front itself. -/
theorem sections_cons (line : List Char) (ls : List (List Char)) :
    sections (line :: ls) =
      if isTagLine line then
        ([], Text.trimEnd (Text.trimStart line ++ (sections ls).1) :: (sections ls).2)
      else (Text.trimEnd ('\n' :: line ++ (sections ls).1), (sections ls).2) := by
  simp only [sections, chunks]
  split
  · rw [List.map_cons, Text.joinLines_cons, Text.trimEnd_append_trimEnd]
    rfl
  · rw [List.flatMap_cons, Text.trimEnd_append_trimEnd]

/-- **A comment is read by its sections.** -/
theorem Block.ofComment_eq (body : String) :
    ofComment body =
      let texts := sections ((Text.lines body.toList).map stripGutter)
      { description := String.ofList (Text.trim texts.1)
        directives := texts.2.map Directive.ofText } := by
  have hfront (front : List (List Char)) :
      Text.trim (Text.trimEnd (front.flatMap ('\n' :: ·))) = Text.trim (Text.joinLines front) := by
    rw [Text.trim_trimEnd]
    rcases front with _ | ⟨line, front⟩
    · rfl
    · -- the line feed before the first line is white space in front
      rw [Text.joinLines_cons]
      exact congrArg Text.trimEnd
        (Text.trimStart_append (List.forall_mem_singleton.mpr isBlank_newline) _)
  have hchunk (chunk : List (List Char)) :
      Directive.ofText (Text.trimEnd (Text.joinLines chunk)) = Directive.ofChunk chunk :=
    Directive.ofText_trimEnd _
  simp only [ofComment, sections, hfront, List.map_map, Function.comp_def, hchunk]

/-- Lines that make the same sections do so behind any other lines. -/
theorem sections_append_congr (h : sections ls = sections ls') (ms : List (List Char)) :
    sections (ms ++ ls) = sections (ms ++ ls') := by
  induction ms with
  | nil => exact h
  | cons line ms ih => rw [List.cons_append, List.cons_append, sections_cons, sections_cons, ih]

/-- An empty line at the end is not read. -/
theorem sections_concat_nil (ls : List (List Char)) : sections (ls ++ [[]]) = sections ls := by
  have h := sections_append_congr (show sections [[]] = sections [] from rfl) ls
  rwa [List.append_nil] at h

/-- White space after a line does not make a title of what is none. -/
theorem isTagLine_append (hback : ∀ c ∈ back, isBlank c = true) (line : List Char) :
    isTagLine (line ++ back) = isTagLine line := by
  obtain ⟨back', hback', hstart⟩ := Text.exists_trimStart_append hback line
  rw [isTagLine, isTagLine, hstart]
  -- only the first two characters are looked at
  rcases Text.trimStart line with _ | ⟨c, _ | ⟨d, rest⟩⟩
  · rcases back' with _ | ⟨b, back'⟩
    · rfl
    · have hb : b ≠ '@' := by
        rintro rfl
        exact absurd (hback' _ List.mem_cons_self) (by decide)
      simp [hb]
  · rcases back' with _ | ⟨b, back'⟩
    · rfl
    · have hb : isTitleChar b = false := Bool.eq_false_iff.mpr fun htitle =>
        Bool.false_ne_true
          ((isBlank_of_isTitleChar htitle).symm.trans (hback' b List.mem_cons_self))
      by_cases hc : c = '@' <;> simp [hc, hb]
  · by_cases hc : c = '@' <;> simp [hc]

/-- **White space at the end of the last line is not read.** -/
theorem sections_concat_append (hback : ∀ c ∈ back, isBlank c = true) (ls : List (List Char))
    (line : List Char) : sections (ls ++ [line ++ back]) = sections (ls ++ [line]) := by
  refine sections_append_congr ?_ ls
  obtain ⟨back', hback', hstart⟩ := Text.exists_trimStart_append hback line
  have hnil : (sections []).1 = [] := rfl
  simp only [sections_cons, isTagLine_append hback, hstart, hnil, List.append_nil,
    Text.trimEnd_append hback', ← List.cons_append, Text.trimEnd_append hback]

/-! ### How the last line ends -/

/-- To a line without its gutter, a return at the end is white space. -/
theorem exists_stripGutter_dropReturn (line : List Char) :
    ∃ back, (∀ c ∈ back, isBlank c = true) ∧
      stripGutter line = stripGutter (Text.dropReturn line) ++ back := by
  rw [Text.dropReturn]
  split
  · next hlast =>
    obtain ⟨front, rfl⟩ : ∃ front, line = front ++ ['\r'] := List.getLast?_eq_some_iff.mp hlast
    have hreturn : ∀ c ∈ ['\r'], isBlank c = true := List.forall_mem_singleton.mpr (by decide)
    obtain ⟨back₁, hback₁, hstart⟩ := Text.exists_trimStart_append hreturn front
    obtain ⟨back₂, hback₂, hstar⟩ :=
      Text.exists_dropLeading_append hback₁ '*' (Text.trimStart front)
    obtain ⟨back₃, hback₃, hspace⟩ :=
      Text.exists_dropLeading_append hback₂ ' ' (Text.dropLeading '*' (Text.trimStart front))
    refine ⟨back₃, hback₃, ?_⟩
    rw [List.dropLast_concat, stripGutter, hstart, hstar, hspace]
    rfl
  · exact ⟨[], List.forall_mem_nil _, (List.append_nil _).symm⟩

/-- **How the last line ends is not read**: the sections of a body are those of the pieces between
its line feeds, as if each of them were ended by one. -/
theorem sections_lines (cs : List Char) :
    sections ((Text.lines cs).map stripGutter) =
      sections (((cs.splitOn '\n').map Text.dropReturn).map stripGutter) := by
  obtain ⟨past, last, hsplit⟩ :=
    (List.eq_nil_or_concat (cs.splitOn '\n')).resolve_left (List.splitOn_ne_nil '\n' cs)
  rw [Text.lines, hsplit, List.concat_eq_append,
    Text.linesOfPieces_append (List.cons_ne_nil last []), Text.linesOfPieces]
  simp only [List.map_append, List.map_cons, List.map_nil]
  split
  · next hempty =>
    -- the piece after the last line feed is no line if it is empty
    subst hempty
    rw [List.map_nil, List.append_nil]
    exact (sections_concat_nil _).symm
  · obtain ⟨back, hback, hstrip⟩ := exists_stripGutter_dropReturn last
    rw [List.map_singleton, hstrip, sections_concat_append hback]

/-! ### Bodies in a row -/

/-- Lines that open a directive make sections of their own. -/
theorem sections_append_of_isTagLine (hline : isTagLine line = true) (ms ls : List (List Char)) :
    sections (ms ++ line :: ls) =
      ((sections ms).1, (sections ms).2 ++ (sections (line :: ls)).2) := by
  induction ms with
  | nil =>
    rw [List.nil_append, sections_cons, if_pos hline]
    rfl
  | cons first ms ih =>
    rw [List.cons_append, sections_cons, ih, sections_cons first ms]
    split <;> rfl

namespace Block

/-- **Bodies that open a directive**: the first line is that of a tag once its gutter is taken
off. -/
def OpensDirective (body : String) : Prop :=
  ∃ line ∈ (Text.lines body.toList).head?, isTagLine (stripGutter line) = true

/-- **A directive does not reach into the next body.** If that body opens a directive, its
directives come after those of the body before it, and nothing else changes, however that one ends.
-/
theorem ofComment_append {more : String} (h : OpensDirective more) (body : String) :
    ofComment (body ++ "\n" ++ more) =
      { ofComment body with
        directives := (ofComment body).directives ++ (ofComment more).directives } := by
  obtain ⟨line, hline, htag⟩ := h
  obtain ⟨rest, hlines⟩ : ∃ rest, Text.lines more.toList = line :: rest :=
    List.head?_eq_some_iff.mp hline
  have hbody : (body ++ "\n" ++ more).toList = body.toList ++ '\n' :: more.toList := by simp
  have hsections : sections ((Text.lines (body ++ "\n" ++ more).toList).map stripGutter) =
      ((sections ((Text.lines body.toList).map stripGutter)).1,
        (sections ((Text.lines body.toList).map stripGutter)).2 ++
          (sections ((Text.lines more.toList).map stripGutter)).2) := by
    rw [hbody, Text.lines_append_newline, List.map_append, sections_lines, hlines, List.map_cons]
    exact sections_append_of_isTagLine htag _ _
  simp only [ofComment_eq, hsections, List.map_append]

/-- The first directive has a type that is not closed, the second one has no name, and the body ends
with a gutter and a return; the next one starts with a closing brace in its second line. -/
theorem ofComment_append_unclosed :
    let body := " The pets\n * @param \x7bstring\n *   name\n * @property\n *\n *\r"
    let more := " * @route GET /pets\n * \x7d"
    OpensDirective more ∧ ofComment (body ++ "\n" ++ more) =
      { ofComment body with
        directives := (ofComment body).directives ++ (ofComment more).directives } := by
  intro body more
  have h : OpensDirective more :=
    ⟨" * @route GET /pets".toList, by decide +kernel, by decide +kernel⟩
  exact ⟨h, ofComment_append h body⟩

end Block

end ApiAnnotation
