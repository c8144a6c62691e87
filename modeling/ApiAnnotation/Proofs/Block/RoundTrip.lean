import ApiAnnotation.Block.Source
import ApiAnnotation.Proofs.Block.Parts
import ApiAnnotation.Proofs.Token.Comments

/-!
# Reading a written block

A block that is written as a doc comment is read back from the source that consists of this comment.
The way back undoes what writing did, last step first: the scanner finds the comment and its body,
the body falls into its lines, the gutters come off, the lines are gathered into chunks of which
each is one directive, and of a directive the parts are read.

All but the last of these steps always succeed for a well-formed block, so the block is read back
exactly if each of its directives is (`ApiAnnotation.Block.WellFormed.ofSource_written_iff`).
-/

namespace ApiAnnotation

/-! ### Chunks -/

section Chunks

variable {front ls : List (List Char)} {d : Directive} {ds : List Directive}

/-- Lines that open no directive stay in front. -/
theorem chunks_append (hfront : ∀ line ∈ front, isTagLine line = false)
    (ls : List (List Char)) : chunks (front ++ ls) = (front ++ (chunks ls).1, (chunks ls).2) := by
  induction front with
  | nil => rfl
  | cons line front ih =>
    have ih := ih fun line hline => hfront line (List.mem_cons_of_mem _ hline)
    have hline : ¬isTagLine line = true := by simp [hfront line List.mem_cons_self]
    rw [List.cons_append, chunks, ih]
    exact if_neg hline

/-- The lines of a directive make a chunk, together with what stands in front of the next one. -/
theorem chunks_written_append (h : d.WellFormed) (ls : List (List Char)) :
    chunks (d.written.splitOn '\n' ++ ls) =
      ([], (d.written.splitOn '\n' ++ (chunks ls).1) :: (chunks ls).2) := by
  -- of the lines of the directive the first alone opens one
  obtain ⟨rest, hlines⟩ := h.splitOn_written
  have hstart : Text.trimStart (d.opening ++ rest) = d.opening ++ rest :=
    Text.trimStart_of_head fun c hc => by
      obtain rfl := Option.some.inj hc
      decide
  rw [hlines, List.cons_append, chunks, chunks_append h.lines, hstart]
  exact if_pos (h.isTagLine_opening rest)

/-- Empty lines after a text add line feeds to it. -/
theorem eq_newline_of_mem_flatMap {blanks : List (List Char)} (h : ∀ line ∈ blanks, line = [])
    {c : Char} (hc : c ∈ blanks.flatMap ('\n' :: ·)) : c = '\n' := by
  obtain ⟨line, hline, hc⟩ := List.mem_flatMap.mp hc
  rw [h line hline] at hc
  exact List.mem_singleton.mp hc

/-- The chunk of a directive is read as the directive if it can be. -/
theorem Directive.WellFormed.ofChunk_written_iff (h : d.WellFormed) {blanks : List (List Char)}
    (hblanks : ∀ line ∈ blanks, line = []) :
    Directive.ofChunk (d.written.splitOn '\n' ++ blanks) = d ↔ d.Unambiguous := by
  have hjoin : Text.joinLines (d.written.splitOn '\n') = d.written := List.intercalate_splitOn '\n'
  rw [ofChunk, Text.joinLines_append (List.splitOn_ne_nil '\n' d.written), hjoin]
  exact h.ofText_written_iff fun c hc => eq_newline_of_mem_flatMap hblanks hc

/-- **The directives of a block are read back exactly if each of them is unambiguous**, and nothing
but empty lines is left in front of the first. -/
theorem chunks_directives (h : ∀ d ∈ ds, d.WellFormed) :
    (∀ line ∈ (chunks ((ds.flatMap fun d => d.written.splitOn '\n') ++ [[]])).1, line = []) ∧
      ((chunks ((ds.flatMap fun d => d.written.splitOn '\n') ++ [[]])).2.map
          Directive.ofChunk = ds ↔ ∀ d ∈ ds, d.Unambiguous) := by
  induction ds with
  | nil => simp [chunks, isTagLine, Text.trimStart]
  | cons d ds ih =>
    obtain ⟨hblanks, hread⟩ := ih fun d hd => h d (List.mem_cons_of_mem _ hd)
    have hd := h d List.mem_cons_self
    rw [List.flatMap_cons, List.append_assoc, chunks_written_append hd]
    refine ⟨fun line hline => absurd hline List.not_mem_nil, ?_⟩
    rw [List.map_cons, List.cons.injEq, hd.ofChunk_written_iff hblanks, hread,
      List.forall_mem_cons]

end Chunks

/-! ### The body of a comment -/

namespace Block

variable {block : Block}

/-- The text between the ends of the comment of a block. -/
def body (block : Block) : List Char :=
  Text.joinLines ([] :: block.writtenLines.map (" * ".toList ++ ·) ++ [[' ']])

theorem stripGutter_append (line : List Char) : stripGutter (" * ".toList ++ line) = line := rfl

/-- The lines of the body are those of the block between two empty ones. -/
theorem WellFormed.lines_body (h : block.WellFormed) :
    (Text.lines block.body).map stripGutter = [] :: block.writtenLines ++ [[]] := by
  have hbreak : ∀ line ∈ [] :: block.writtenLines.map (" * ".toList ++ ·),
      '\n' ∉ line ∧ '\r' ∉ line := by
    intro line hline
    rcases List.mem_cons.mp hline with rfl | hline
    · exact ⟨List.not_mem_nil, List.not_mem_nil⟩
    · obtain ⟨text, htext, rfl⟩ := List.mem_map.mp hline
      obtain ⟨hplain, hnewline⟩ := h.of_mem_writtenLines htext
      simp [hplain.unreturned, hnewline]
  rw [body, Text.lines_joinLines hbreak (by decide) (by decide), List.map_append, List.map_cons,
    List.map_map]
  have hstrip : stripGutter ∘ (" * ".toList ++ ·) = id := funext stripGutter_append
  rw [hstrip, List.map_id]
  rfl

/-- A description is read back from its lines whatever empty lines stand around them. -/
theorem trim_joinLines_descriptionLines {description : String}
    (h : Text.Trimmed description.toList) {blanks : List (List Char)}
    (hblanks : ∀ line ∈ blanks, line = []) :
    Text.trim (Text.joinLines ([] :: descriptionLines description ++ blanks)) =
      description.toList := by
  have htail := isBlank_of_newlines fun c hc => eq_newline_of_mem_flatMap hblanks hc
  rw [Text.joinLines_append (List.cons_ne_nil _ _), descriptionLines]
  split
  · next hempty =>
    rw [hempty] at h ⊢
    exact Text.trim_append_append (List.forall_mem_nil _) htail h
  · have hjoin : Text.joinLines ([] :: description.toList.splitOn '\n') =
        ['\n'] ++ description.toList := by
      obtain ⟨line, lines, hlines⟩ :=
        List.exists_cons_of_ne_nil (List.splitOn_ne_nil '\n' description.toList)
      have hdescription : Text.joinLines (line :: lines) = description.toList :=
        hlines ▸ List.intercalate_splitOn '\n'
      rw [hlines, ← hdescription, Text.joinLines_cons, Text.joinLines_cons, List.flatMap_cons]
      rfl
    rw [hjoin]
    exact Text.trim_append_append (List.forall_mem_singleton.mpr isBlank_newline) htail h

/-- The body of a written comment is read as the block if each directive is read back. -/
theorem WellFormed.ofComment_body_iff (h : block.WellFormed) :
    Block.ofComment (String.ofList block.body) = { block with span := none } ↔
      ∀ d ∈ block.directives, d.Unambiguous := by
  obtain ⟨hblanks, hread⟩ := chunks_directives h.directives
  have hfront : ∀ line ∈ [] :: descriptionLines block.description, isTagLine line = false := by
    intro line hline
    rcases List.mem_cons.mp hline with rfl | hline
    · rfl
    · rw [descriptionLines] at hline
      split at hline
      · exact absurd hline List.not_mem_nil
      · exact h.lines line hline
  rw [ofComment, String.toList_ofList, h.lines_body, writtenLines, ← List.cons_append,
    List.append_assoc, chunks_append hfront]
  simp only [trim_joinLines_descriptionLines h.trimmed hblanks, String.ofList_toList]
  rw [Block.mk.injEq, hread]
  simp

/-! ### The comment -/

/-- The comment is the body between its ends. -/
theorem toList_written (block : Block) :
    block.written.toList = "/**".toList ++ block.body ++ "*/".toList := by
  simp [written, body, Text.joinLines_cons, List.flatMap_append]

/-- **The comment does not end before its end.** -/
theorem WellFormed.not_infix_body (h : block.WellFormed) : ¬['*', '/'] <:+: block.body := by
  rw [body]
  refine Text.not_infix_pair_joinLines (by decide) (by decide) fun line hline => ?_
  rcases List.mem_append.mp hline with hline | hline
  · rcases List.mem_cons.mp hline with rfl | hline
    · decide
    · obtain ⟨text, htext, rfl⟩ := List.mem_map.mp hline
      exact Text.not_infix_pair_append (by decide) (h.of_mem_writtenLines htext).1.unended
        (Or.inl (by decide))
  · obtain rfl := List.mem_singleton.mp hline
    decide

/-- It starts with a line feed, so the second star of the opening mark does not close it. -/
theorem head?_body (block : Block) : block.body.head? = some '\n' := by
  obtain ⟨line, lines, hlines⟩ := List.exists_cons_of_ne_nil (List.append_ne_nil_of_right_ne_nil
    (block.writtenLines.map (" * ".toList ++ ·)) (List.cons_ne_nil [' '] []))
  rw [body, List.cons_append, hlines, Text.joinLines_cons, List.flatMap_cons]
  rfl

theorem WellFormed.isBlockComment_written (h : block.WellFormed) :
    Token.IsBlockComment block.written (.docComment (String.ofList block.body)) := by
  have hwritten : block.written = "/**" ++ String.ofList block.body ++ "*/" :=
    String.toList_inj.mp (by simp [toList_written])
  rw [hwritten]
  refine .doc ?_ ?_
  · rw [String.toList_ofList]
    exact h.not_infix_body
  · rw [String.toList_ofList, head?_body]
    decide

/-- **The tokens of a written block** are its comment and the end of the source. -/
theorem WellFormed.scan_written (h : block.WellFormed) :
    Token.scan block.written =
      [⟨.docComment (String.ofList block.body), 0, block.written.utf8ByteSize⟩,
        ⟨.endOfSource, block.written.utf8ByteSize, block.written.utf8ByteSize⟩] := by
  rw [Token.scan, ← List.append_nil block.written.toList,
    h.isBlockComment_written.scanFrom_append, Token.scanFrom, Nat.zero_add]

/-- A body says nothing about where its comment stands. -/
theorem span_ofComment (body : String) : (Block.ofComment body).span = none := rfl

/-- **A written block is read back exactly if its directives are unambiguous.** -/
theorem WellFormed.ofSource_written_iff (h : block.WellFormed) :
    Block.ofSource block.written =
        [{ block with span := some ⟨0, block.written.utf8ByteSize⟩ }] ↔
      ∀ d ∈ block.directives, d.Unambiguous := by
  have hsource : Block.ofSource block.written =
      [{ Block.ofComment (String.ofList block.body) with
        span := some ⟨0, block.written.utf8ByteSize⟩ }] := by
    rw [ofSource, h.scan_written]
    rfl
  have hspan := span_ofComment (String.ofList block.body)
  rw [hsource, ← h.ofComment_body_iff, List.cons.injEq, and_iff_left rfl]
  generalize Block.ofComment (String.ofList block.body) = read at hspan ⊢
  obtain ⟨description, directives, span⟩ := read
  obtain rfl : span = none := hspan
  simp only [Block.mk.injEq, and_true]

/-- A block with a text of two lines, a description that goes on, and a type without a name. -/
def petByName : Block where
  description := "Finds a pet\nby its name."
  directives :=
    [{ title := "param", name := "name.query", type := some { name := some "string" }
       description := "the name\n  in full" },
      { title := "returns", type := some {}, description := "200 - {found}" },
      { title := "deprecated" }]

theorem ofSource_written_petByName :
    petByName.WellFormed ∧ Block.ofSource petByName.written =
      [{ petByName with span := some ⟨0, petByName.written.utf8ByteSize⟩ }] := by
  have hdirectives : ∀ d ∈ petByName.directives, d.WellFormed ∧ d.Unambiguous := by
    intro d hd
    simp only [petByName, List.mem_cons, List.not_mem_nil, or_false] at hd
    rcases hd with rfl | rfl | rfl
    all_goals
      exact ⟨⟨by decide, List.all_eq_true.mp (by decide), by decide, by decide, by decide,
        fun c hc => Bool.eq_false_iff.mpr (List.any_eq_false.mp (by decide) c hc), by decide,
        ⟨by decide, by decide⟩, by decide, ⟨by decide, by decide⟩, by decide⟩,
        ⟨by decide, by decide, stripDash_eq_self_iff.mp (by decide)⟩⟩
  have h : petByName.WellFormed :=
    ⟨by decide, ⟨by decide, by decide⟩, by decide, fun d hd => (hdirectives d hd).1⟩
  exact ⟨h, h.ofSource_written_iff.mpr fun d hd => (hdirectives d hd).2⟩

end Block

end ApiAnnotation
