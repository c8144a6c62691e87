import ApiAnnotation.Proofs.Block.Sections
import ApiAnnotation.Proofs.Compile.StatedTypes

/-!
# The shape of comments that are read

Reading a comment cannot fail, so whatever a comment says, what is read of it has a certain shape:
there is one directive for each line that opens one, titled as that line says, and it has a type and
a name only if its title takes them. What stands before the first of these lines is the text of the
block. A line opens a directive if, its gutter taken off, it starts with an `@` and a title
(`ApiAnnotation.tagLines`).

The text of a block is joined from lines and trimmed, and neither makes a line that would open a
directive out of those that do not: where such a line starts in the trimmed text, one starts in the
whole (`ApiAnnotation.HasTag.of_trim`). Gutters are taken off once. A line of the text may start with
a star of its own, and what stands behind it is not looked at.

## Main statements

* `ApiAnnotation.Directive.openedBy_ofChunk`: what is read of a line that opens a directive.
* `ApiAnnotation.hasTag_iff`: where a line of a text opens a directive.
* `ApiAnnotation.Block.shaped_ofComment`: the shape of a block.
-/

namespace ApiAnnotation

variable {cs line : List Char}

/-! ### Directives -/

/-- The lines of a body that open a directive, without their gutters. -/
def tagLines (body : String) : List (List Char) :=
  ((Text.lines body.toList).map stripGutter).filter isTagLine

/-- **What a directive is like that a line opens.** -/
structure Directive.OpenedBy (line : List Char) (d : Directive) : Prop where
  /-- The title stands behind the `@`, as far as characters of a title go. -/
  title : ∃ rest, Text.trimStart line = '@' :: (d.title.toList ++ rest) ∧
    ∀ c ∈ rest.head?, isTitleChar c = false
  /-- It consists of such characters. -/
  title_char : ∀ c ∈ d.title.toList, isTitleChar c = true
  /-- It is not empty. -/
  title_ne : d.title ≠ ""
  /-- There is a name only if the title takes one. -/
  takesName : d.name ≠ "" → takesName d.title = true
  /-- No white space stands in the name. -/
  name_char : ∀ c ∈ d.name.toList, isBlank c = false
  /-- There is a type only if the title takes one. -/
  takesType : d.type ≠ none → takesType d.title = true
  /-- The name of the type, if it has one, is a dotted path. -/
  type_name : ∀ t ∈ d.type, ∀ name ∈ t.name, ∀ segment ∈ name.toList.splitOn '.',
    IsNameSegment segment

theorem isTagLine_iff :
    isTagLine line = true ↔
      ∃ c rest, Text.trimStart line = '@' :: c :: rest ∧ isTitleChar c = true := by
  rw [isTagLine]
  constructor
  · intro h
    split at h
    · next c rest heq => exact ⟨c, rest, heq, h⟩
    · cases h
  · rintro ⟨c, rest, heq, hc⟩
    rw [heq]
    exact hc

theorem isBlank_eq_false_of_mem_takeName {title : String} :
    ∀ c ∈ (takeName title cs).1, isBlank c = false := by
  rw [takeName]
  split
  · intro c hc
    simpa using List.all_eq_true.mp List.all_takeWhile c hc
  · exact List.forall_mem_nil _

/-- The parts of a directive are taken off its text one after the other. -/
theorem Directive.exists_parts (text : List Char) :
    ∃ afterTitle afterType,
      (ofText text).title = String.ofList ((Text.dropLeading '@' text).takeWhile isTitleChar) ∧
        (ofText text).type = (takeType (ofText text).title afterTitle).1 ∧
          (ofText text).name = String.ofList (takeName (ofText text).title afterType).1 :=
  ⟨_, _, rfl, rfl, rfl⟩

/-- **What is read of a line that opens a directive**, whatever lines continue it. -/
theorem Directive.openedBy_ofChunk (h : isTagLine line = true) (more : List (List Char)) :
    OpenedBy line (ofChunk (Text.trimStart line :: more)) := by
  obtain ⟨c, rest, hline, hc⟩ := isTagLine_iff.mp h
  have htext : Text.dropLeading '@' (Text.joinLines (Text.trimStart line :: more)) =
      c :: rest ++ more.flatMap ('\n' :: ·) := by
    rw [Text.joinLines_cons, hline]
    rfl
  -- the title is one of the first line, a line feed being no character of a title
  have hends : ∀ b ∈ (more.flatMap ('\n' :: ·)).head?, isTitleChar b = false := by
    intro b hb
    rcases more with _ | ⟨next, more⟩
    · cases hb
    · obtain rfl := Option.some.inj hb
      decide
  have hpath := hasPath_ofText (Text.joinLines (Text.trimStart line :: more))
  obtain ⟨afterTitle, afterType, htitle, htype, hname⟩ :=
    exists_parts (Text.joinLines (Text.trimStart line :: more))
  rw [htext, (takeWhile_dropWhile_append_of_head hends _).1] at htitle
  rw [ofChunk]
  generalize ofText (Text.joinLines (Text.trimStart line :: more)) = d at hpath htitle htype hname
  have htitle : d.title.toList = (c :: rest).takeWhile isTitleChar := by
    rw [htitle, String.toList_ofList]
  refine ⟨⟨(c :: rest).dropWhile isTitleChar, ?_, head?_dropWhile_eq_false _ _⟩, ?_, ?_, fun h => ?_,
    ?_, fun h => ?_, fun t ht name hname => (isNamePath_iff _).mp (hpath t ht name hname)⟩
  · rw [htitle, List.takeWhile_append_dropWhile, hline]
  · rw [htitle]
    exact List.all_eq_true.mp List.all_takeWhile
  · rw [← String.toList_inj.ne, htitle, List.takeWhile_cons_of_pos hc]
    exact List.cons_ne_nil _ _
  · by_contra htakes
    rw [hname, takeName_of_not (Bool.eq_false_iff.mpr htakes)] at h
    exact h rfl
  · rw [hname, String.toList_ofList]
    exact isBlank_eq_false_of_mem_takeName
  · by_contra htakes
    rw [htype, takeType, if_neg htakes] at h
    exact h rfl

/-- Every line that opens a directive starts a chunk. -/
theorem forall₂_chunks_tagLines (ls : List (List Char)) :
    List.Forall₂ (fun line chunk => isTagLine line = true ∧
      ∃ more, chunk = Text.trimStart line :: more) (ls.filter isTagLine) (chunks ls).2 := by
  induction ls with
  | nil => exact .nil
  | cons line ls ih =>
    simp only [chunks, List.filter_cons]
    by_cases h : isTagLine line = true
    · rw [if_pos h, if_pos h]
      exact .cons ⟨h, (chunks ls).1, rfl⟩ ih
    · rw [if_neg h, if_neg h]
      exact ih

/-- The lines in front of the chunks go up to the first that opens a directive. -/
theorem fst_chunks (ls : List (List Char)) : (chunks ls).1 = ls.takeWhile (!isTagLine ·) := by
  induction ls with
  | nil => rfl
  | cons line ls ih =>
    rw [chunks, List.takeWhile_cons]
    by_cases h : isTagLine line = true
    · simp [h]
    · simp [h, ih]

/-! ### Texts without directives -/

/-- **Whether a directive would be opened in a text**: somewhere a line starts, and what follows
opens one. -/
def HasTag (cs : List Char) : Prop :=
  ∃ past rest, cs = past ++ rest ∧ (∀ c ∈ past.getLast?, c = '\n') ∧ isTagLine rest = true

/-- What follows a title does not matter. -/
theorem isTagLine_append_of_true (h : isTagLine cs = true) (more : List Char) :
    isTagLine (cs ++ more) = true := by
  obtain ⟨c, rest, hcs, hc⟩ := isTagLine_iff.mp h
  refine isTagLine_iff.mpr ⟨c, rest ++ more, ?_, hc⟩
  rw [Text.trimStart] at hcs ⊢
  rw [List.dropWhile_append, hcs]
  rfl

/-- **A trim opens no directive**: white space that is taken away in front of a line does not keep it
from opening one. -/
theorem HasTag.of_trim (h : HasTag (Text.trim cs)) : HasTag cs := by
  obtain ⟨past, rest, htrim, hpast, hrest⟩ := h
  obtain ⟨back, -, hback⟩ := Text.exists_eq_trimEnd_append (Text.trimStart cs)
  have hfront : ∀ c ∈ cs.takeWhile isBlank, isBlank c = true :=
    List.all_eq_true.mp List.all_takeWhile
  have hcs : cs = cs.takeWhile isBlank ++ (past ++ rest ++ back) := by
    conv_lhs => rw [← List.takeWhile_append_dropWhile (p := isBlank) (l := cs)]
    rw [← htrim]
    exact congrArg _ hback
  have hrest := isTagLine_append_of_true hrest back
  rcases List.eq_nil_or_concat past with rfl | ⟨past, last, rfl⟩
  · -- the line starts in the white space
    refine ⟨[], cs, rfl, by simp, ?_⟩
    rw [hcs, isTagLine, Text.trimStart_append hfront]
    exact hrest
  · refine ⟨cs.takeWhile isBlank ++ past.concat last, rest ++ back, by simpa using hcs, ?_, hrest⟩
    simpa using hpast

/-- A piece of a text that opens a directive does so where a line starts. -/
theorem hasTag_of_mem_splitOn {piece : List Char} (hmem : piece ∈ cs.splitOn '\n')
    (h : isTagLine piece = true) : HasTag cs := by
  obtain ⟨past, later, hsplit⟩ := List.append_of_mem hmem
  have hcs : cs = Text.joinLines (past ++ piece :: later) := by
    rw [Text.joinLines, ← hsplit, List.intercalate_splitOn]
  rcases past with _ | ⟨first, past⟩
  · rw [List.nil_append, Text.joinLines_cons] at hcs
    exact ⟨[], cs, rfl, by simp, hcs ▸ isTagLine_append_of_true h _⟩
  · rw [List.cons_append, Text.joinLines_cons, List.flatMap_append, List.flatMap_cons] at hcs
    refine ⟨first ++ past.flatMap ('\n' :: ·) ++ ['\n'], piece ++ later.flatMap ('\n' :: ·),
      by simpa using hcs, by simp, isTagLine_append_of_true h _⟩

/-- A text that opens a directive has a piece that does. -/
theorem exists_mem_splitOn_of_isTagLine (h : isTagLine cs = true) :
    ∃ piece ∈ cs.splitOn '\n', isTagLine piece = true := by
  induction cs with
  | nil => cases h
  | cons c cs ih =>
    by_cases hblank : isBlank c = true
    · -- white space in front is no part of what opens the directive
      have hskip (ds : List Char) : isTagLine (c :: ds) = isTagLine ds := by
        have htrim : Text.trimStart (c :: ds) = Text.trimStart ds :=
          Text.trimStart_append (List.forall_mem_singleton.mpr hblank) ds
        rw [isTagLine, htrim, isTagLine]
      obtain ⟨piece, hpiece, htag⟩ := ih (hskip cs ▸ h)
      rw [List.splitOn_cons_eq_if_modifyHead]
      split
      · exact ⟨piece, List.mem_cons_of_mem _ hpiece, htag⟩
      · obtain ⟨first, pieces, hsplit⟩ := List.exists_cons_of_ne_nil (List.splitOn_ne_nil '\n' cs)
        rw [hsplit] at hpiece ⊢
        rw [List.modifyHead_cons]
        rcases List.mem_cons.mp hpiece with rfl | hpiece
        · exact ⟨c :: piece, List.mem_cons_self, (hskip piece).trans htag⟩
        · exact ⟨piece, List.mem_cons_of_mem _ hpiece, htag⟩
    · obtain ⟨d, rest, htrim, hd⟩ := isTagLine_iff.mp h
      rw [Text.trimStart, List.dropWhile_cons_of_neg hblank] at htrim
      have hbreak : '\n' ∉ ['@', d] := by
        rintro (_ | ⟨_, _ | ⟨_, hmem⟩⟩)
        · exact absurd hd (by decide)
        · cases hmem
      obtain ⟨first, pieces, hsplit⟩ := List.exists_cons_of_ne_nil (List.splitOn_ne_nil '\n' rest)
      have hpieces : (c :: cs).splitOn '\n' = ('@' :: d :: first) :: pieces := by
        rw [htrim]
        refine (Text.splitOn_append_of_not_mem hbreak rest).trans ?_
        rw [hsplit]
        rfl
      rw [hpieces]
      exact ⟨_, List.mem_cons_self, isTagLine_iff.mpr ⟨d, first, rfl, hd⟩⟩

/-- **A directive is opened in a text exactly if a piece between line feeds opens it.** -/
theorem hasTag_iff : HasTag cs ↔ ∃ piece ∈ cs.splitOn '\n', isTagLine piece = true := by
  constructor
  · rintro ⟨past, rest, rfl, hpast, hrest⟩
    obtain ⟨piece, hpiece, htag⟩ := exists_mem_splitOn_of_isTagLine hrest
    refine ⟨piece, ?_, htag⟩
    rcases List.eq_nil_or_concat past with rfl | ⟨past, last, rfl⟩
    · exact hpiece
    · -- a line feed keeps the pieces on its two sides apart
      obtain rfl : last = '\n' := hpast last (by simp)
      have hsplit : (past.concat '\n' ++ rest).splitOn '\n' =
          past.splitOn '\n' ++ rest.splitOn '\n' := by
        rw [List.concat_eq_append, List.append_assoc]
        exact List.splitOnP_append_cons past rest (by simp)
      rw [hsplit]
      exact List.mem_append_right _ hpiece
  · rintro ⟨piece, hpiece, htag⟩
    exact hasTag_of_mem_splitOn hpiece htag

/-- Joined lines open a directive only if one of them does. -/
theorem not_hasTag_joinLines {ls : List (List Char)} (hbreak : ∀ line ∈ ls, '\n' ∉ line)
    (h : ∀ line ∈ ls, isTagLine line = false) : ¬HasTag (Text.joinLines ls) := by
  rw [hasTag_iff]
  rintro ⟨piece, hpiece, htag⟩
  by_cases hls : ls = []
  · subst hls
    obtain rfl := List.mem_singleton.mp hpiece
    cases htag
  · rw [Text.joinLines, List.splitOn_intercalate '\n' hbreak hls] at hpiece
    rw [h piece hpiece] at htag
    cases htag

/-- No line feed stands in a line that is read, with its gutter taken off. -/
theorem newline_not_mem_stripGutter (h : line ∈ Text.lines cs) : '\n' ∉ stripGutter line := by
  have hline : '\n' ∉ line := by
    obtain ⟨piece, hpiece, rfl | rfl⟩ := Text.exists_of_mem_lines h
    · exact Text.not_mem_of_mem_splitOn hpiece
    · exact fun hmem => Text.not_mem_of_mem_splitOn hpiece (List.mem_append_left _ hmem)
  intro hmem
  have hstart : '\n' ∈ Text.trimStart line :=
    Text.mem_of_mem_dropLeading (Text.mem_of_mem_dropLeading hmem)
  exact hline ((List.dropWhile_sublist isBlank).subset hstart)

/-- A gutter is taken off without a star, and then it is the white space in front of the line. -/
theorem isTagLine_stripGutter (h : (Text.trimStart line).head? ≠ some '*') :
    isTagLine (stripGutter line) = isTagLine line := by
  have hblank : ∀ c ∈ (Text.trimStart line).head?, isBlank c = false :=
    head?_dropWhile_eq_false isBlank line
  have hstrip : stripGutter line = Text.trimStart line := by
    rw [stripGutter]
    rcases hstart : Text.trimStart line with _ | ⟨c, rest⟩
    · rfl
    · rw [hstart] at h hblank
      have hstar : c ≠ '*' := fun hc => h (congrArg some hc)
      have hspace : c ≠ ' ' := by
        rintro rfl
        exact absurd (hblank ' ' rfl) (by decide)
      rw [Text.dropLeading, if_neg hstar, Text.dropLeading, if_neg hspace]
  rw [hstrip, isTagLine, Text.trimStart_of_head hblank, isTagLine]

/-! ### Blocks -/

/-- **The shape of a block** that is read from a body. -/
structure Block.Shaped (body : String) (block : Block) : Prop where
  /-- There is one directive for each line that opens one, in their order. -/
  directives : List.Forall₂ Directive.OpenedBy (tagLines body) block.directives
  /-- The text is what stands before the first of these lines, trimmed. -/
  description : block.description.toList = Text.trim (Text.joinLines
    (((Text.lines body.toList).map stripGutter).takeWhile (!isTagLine ·)))
  /-- No white space stands at its ends. -/
  trimmed : Text.Trimmed block.description.toList
  /-- None of its lines opens a directive. -/
  not_tag : ∀ line ∈ Text.lines block.description.toList, isTagLine line = false
  /-- None would if a gutter were taken off once more, unless it starts with another star. -/
  not_tag_stripGutter : ∀ line ∈ Text.lines block.description.toList,
    (Text.trimStart line).head? ≠ some '*' → isTagLine (stripGutter line) = false

/-- **The shape of every block that is read.** -/
theorem Block.shaped_ofComment (body : String) : Shaped body (ofComment body) := by
  have htext : (ofComment body).description.toList = Text.trim (Text.joinLines
      (((Text.lines body.toList).map stripGutter).takeWhile (!isTagLine ·))) := by
    rw [← fst_chunks]
    exact String.toList_ofList
  have hnot : ∀ line ∈ Text.lines (ofComment body).description.toList, isTagLine line = false := by
    intro line hline
    refine Bool.eq_false_iff.mpr fun htag => ?_
    have hfront : HasTag (ofComment body).description.toList := by
      obtain ⟨piece, hpiece, rfl | rfl⟩ := Text.exists_of_mem_lines hline
      · exact hasTag_of_mem_splitOn hpiece htag
      · exact hasTag_of_mem_splitOn hpiece (isTagLine_append_of_true htag _)
    rw [htext] at hfront
    refine not_hasTag_joinLines (fun line hline => ?_) (fun line hline => ?_) hfront.of_trim
    · obtain ⟨whole, hwhole, rfl⟩ := List.mem_map.mp (List.takeWhile_subset _ hline)
      exact newline_not_mem_stripGutter hwhole
    · simpa using List.mem_takeWhile_imp hline
  refine ⟨?_, htext, htext ▸ Text.trimmed_trim _, hnot,
    fun line hline hstar => (isTagLine_stripGutter hstar).trans (hnot line hline)⟩
  refine List.forall₂_map_right_iff.mpr ((forall₂_chunks_tagLines _).imp ?_)
  rintro line chunk ⟨hline, more, rfl⟩
  exact Directive.openedBy_ofChunk hline more

/-- A gutter is one star, so that nothing is opened behind the second one. -/
example : (Block.ofComment "** @x").directives = [] ∧
    (Block.ofComment "** @x").description = "* @x" := by
  decide +kernel

end ApiAnnotation
