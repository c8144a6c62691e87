import ApiAnnotation.Proofs.Block.Parts
import ApiAnnotation.Proofs.Token.Rewritten

/-!
# Comments with other titles

A comment is read alike whether a directive in it is titled `param` or `arg`: some titles are
aliases, which take the same parts after them (`ApiAnnotation.IsAlias`). So a comment can be
retitled, line by line, and what is read of it are the same directives but for their titles.

A line that opens a directive is told by its gutter, the `@` and the title, which must end there. It
stays one when it is retitled, and the lines after it still belong to it, so the comment falls into
the same parts. From then on only the title is different, and the parts of a directive are taken off
its text by what the title takes.

## Main statements

* `ApiAnnotation.Block.retitled_ofComment`: what is read of a retitled comment.
* `ApiAnnotation.RetitledBody.isDocBody`: a retitled doc comment is still one.
-/

namespace ApiAnnotation

/-! ### Aliases -/

/-- The groups of titles that are read alike. -/
def aliasGroups : List (List String) :=
  [["param", "arg", "argument"], ["property", "prop"], ["return", "returns"]]

/-- **Titles that are read alike.** -/
def IsAlias (title title' : String) : Prop :=
  ∃ group ∈ aliasGroups, title ∈ group ∧ title' ∈ group

instance (title title' : String) : Decidable (IsAlias title title') :=
  inferInstanceAs (Decidable (∃ group ∈ aliasGroups, title ∈ group ∧ title' ∈ group))

namespace IsAlias

variable {title title' : String}

theorem symm (h : IsAlias title title') : IsAlias title' title := by
  obtain ⟨group, hgroup, htitle, htitle'⟩ := h
  exact ⟨group, hgroup, htitle', htitle⟩

/-- Aliases take the same parts. -/
theorem takes_eq (h : IsAlias title title') :
    takesName title = takesName title' ∧ takesType title = takesType title' := by
  have hgroups : ∀ group ∈ aliasGroups, ∀ title ∈ group, ∀ title' ∈ group,
      takesName title = takesName title' ∧ takesType title = takesType title' := by
    decide
  obtain ⟨group, hgroup, htitle, htitle'⟩ := h
  exact hgroups group hgroup title htitle title' htitle'

/-- Aliases are titles. -/
theorem isTitle (h : IsAlias title title') :
    title.toList ≠ [] ∧ ∀ c ∈ title.toList, isTitleChar c = true := by
  have hgroups : ∀ group ∈ aliasGroups, ∀ title ∈ group,
      title.toList ≠ [] ∧ title.toList.all isTitleChar = true := by
    decide
  obtain ⟨group, hgroup, htitle, -⟩ := h
  exact (hgroups group hgroup title htitle).imp_right List.all_eq_true.mp

end IsAlias

/-! ### Lines with other titles -/

namespace Text

/-- A return at the end of a line does not belong to what ends otherwise. -/
theorem dropReturn_append {cs : List Char} (hcs : cs.getLast? ≠ some '\r') (line : List Char) :
    dropReturn (cs ++ line) = cs ++ dropReturn line := by
  rcases List.eq_nil_or_concat line with rfl | ⟨front, last, rfl⟩
  · rw [List.append_nil, dropReturn, if_neg hcs]
    exact (List.append_nil cs).symm
  · rw [dropReturn, dropReturn, List.concat_eq_append, ← List.append_assoc, List.getLast?_concat,
      List.getLast?_concat, List.dropLast_concat, List.dropLast_concat]
    split <;> simp

end Text

/-- **Lines with other titles**: the line is the same, or it opens a directive, behind a front that
is told, with a title that is replaced by an alias. -/
inductive RetitledLine (Front : List Char → Prop) : List Char → List Char → Prop
  /-- The line is the same. -/
  | same (line : List Char) : RetitledLine Front line line
  /-- The title is replaced. It ends where the rest of the line starts. -/
  | tag {front rest : List Char} {title title' : String} : Front front → IsAlias title title' →
    (∀ c ∈ rest.head?, isTitleChar c = false) →
      RetitledLine Front (front ++ '@' :: (title.toList ++ rest))
        (front ++ '@' :: (title'.toList ++ rest))

/-- **What may stand in front of a directive** on its line: white space, with at most one star in
it. -/
def IsTagFront (front : List Char) : Prop :=
  ∃ before after : List Char, (∀ c ∈ before, isBlank c = true) ∧ (∀ c ∈ after, isBlank c = true) ∧
    (front = before ++ after ∨ front = before ++ '*' :: after)

/-- What is left in front of a directive when the gutter is taken off is white space. -/
theorem IsTagFront.exists_stripGutter {front : List Char} (h : IsTagFront front) :
    ∃ after, (∀ c ∈ after, isBlank c = true) ∧
      ∀ cs, stripGutter (front ++ '@' :: cs) = after ++ '@' :: cs := by
  have hstart (cs : List Char) : Text.trimStart ('@' :: cs) = '@' :: cs :=
    Text.trimStart_of_head (by simp; decide)
  obtain ⟨before, after, hbefore, hafter, rfl | rfl⟩ := h
  · refine ⟨[], List.forall_mem_nil _, fun cs => ?_⟩
    rw [stripGutter, List.append_assoc, Text.trimStart_append hbefore, Text.trimStart_append hafter,
      hstart]
    rfl
  · refine ⟨Text.dropLeading ' ' after,
      fun c hc => hafter c (Text.mem_of_mem_dropLeading hc), fun cs => ?_⟩
    have hstar : Text.trimStart ('*' :: (after ++ '@' :: cs)) = '*' :: (after ++ '@' :: cs) :=
      Text.trimStart_of_head (by simp; decide)
    rw [stripGutter, List.append_assoc, Text.trimStart_append hbefore, List.cons_append, hstar]
    rcases after with _ | ⟨c, after⟩
    · rfl
    · by_cases hc : c = ' '
      · subst hc
        rfl
      · simp [Text.dropLeading, hc]

/-- **A body with other titles.** -/
def RetitledBody (body body' : String) : Prop :=
  List.Forall₂ (RetitledLine IsTagFront) (body.toList.splitOn '\n') (body'.toList.splitOn '\n')

namespace RetitledLine

variable {Front : List Char → Prop} {line line' : List Char} {ls ls' : List (List Char)}

/-- A retitled line starts as it did. -/
theorem head? (h : RetitledLine Front line line') : line'.head? = line.head? := by
  cases h with
  | same => rfl
  | tag => rw [List.head?_append, List.head?_append]; rfl

/-- A return at the end of a line is not part of a title. -/
theorem dropReturn (h : RetitledLine Front line line') :
    RetitledLine Front (Text.dropReturn line) (Text.dropReturn line') := by
  cases h with
  | same => exact .same _
  | @tag front rest title title' hfront halias hrest =>
    have hdrop : ∀ {title title'}, IsAlias title title' →
        Text.dropReturn (front ++ '@' :: (title.toList ++ rest)) =
          front ++ '@' :: (title.toList ++ Text.dropReturn rest) := by
      intro title title' halias
      have hlast : (front ++ '@' :: title.toList).getLast? ≠ some '\r' := by
        obtain ⟨hne, htitle⟩ := halias.isTitle
        rw [List.getLast?_append_cons, List.getLast?_cons_of_ne_nil hne]
        exact fun hreturn => absurd (htitle _ (List.mem_of_getLast? hreturn)) (by decide)
      have happend := Text.dropReturn_append hlast rest
      rwa [List.append_assoc, List.append_assoc] at happend
    rw [hdrop halias, hdrop halias.symm]
    refine .tag hfront halias fun c hc => hrest c ?_
    rcases Text.eq_or_eq_dropReturn_append rest with heq | heq
    · rwa [heq]
    · rw [heq, List.head?_append, Option.mem_def.mp hc]
      rfl

/-- The lines of retitled pieces. -/
theorem linesOfPieces (h : List.Forall₂ (RetitledLine Front) ls ls') :
    List.Forall₂ (RetitledLine Front) (Text.linesOfPieces ls) (Text.linesOfPieces ls') := by
  induction h with
  | nil => exact .nil
  | @cons line line' ls ls' hline hls ih =>
    cases hls with
    | nil =>
      have hempty : line' = [] ↔ line = [] := by
        rw [← List.head?_eq_none_iff, hline.head?, List.head?_eq_none_iff]
      rw [Text.linesOfPieces, Text.linesOfPieces]
      by_cases hnil : line = []
      · rw [if_pos hnil, if_pos (hempty.mpr hnil)]
        exact .nil
      · rw [if_neg hnil, if_neg (mt hempty.mp hnil)]
        exact .cons hline .nil
    | cons hnext hrest => exact .cons hline.dropReturn ih

/-- Without their gutters lines are retitled as they were, behind white space. -/
theorem stripGutter (h : RetitledLine IsTagFront line line') :
    RetitledLine (fun front => ∀ c ∈ front, isBlank c = true) (stripGutter line)
      (stripGutter line') := by
  cases h with
  | same => exact .same _
  | @tag front rest title title' hgutter halias hrest =>
    obtain ⟨after, hafter, hstrip⟩ := hgutter.exists_stripGutter
    rw [hstrip, hstrip]
    exact .tag hafter halias hrest

/-- What opens a directive does so when it is retitled. -/
theorem isTagLine_tag {front : List Char} {title title' : String}
    (hfront : ∀ c ∈ front, isBlank c = true) (halias : IsAlias title title') (rest : List Char) :
    Text.trimStart (front ++ '@' :: (title.toList ++ rest)) = '@' :: (title.toList ++ rest) ∧
      isTagLine (front ++ '@' :: (title.toList ++ rest)) = true := by
  have hstart : Text.trimStart (front ++ '@' :: (title.toList ++ rest)) =
      '@' :: (title.toList ++ rest) := by
    rw [Text.trimStart_append hfront]
    exact Text.trimStart_of_head (by simp; decide)
  obtain ⟨hne, htitle⟩ := halias.isTitle
  obtain ⟨c, cs, hcs⟩ := List.exists_cons_of_ne_nil hne
  refine ⟨hstart, ?_⟩
  rw [isTagLine, hstart, hcs]
  exact htitle c (hcs ▸ List.mem_cons_self)

/-- **Retitled lines fall into the same parts**, and a part starts with a retitled line. -/
theorem forall₂_chunks
    (h : List.Forall₂ (RetitledLine fun front => ∀ c ∈ front, isBlank c = true) ls ls') :
    (chunks ls).1 = (chunks ls').1 ∧
      List.Forall₂ (fun chunk chunk' => ∃ line line' rest, chunk = line :: rest ∧
        chunk' = line' :: rest ∧ RetitledLine (· = []) line line')
        (chunks ls).2 (chunks ls').2 := by
  induction h with
  | nil => exact ⟨rfl, .nil⟩
  | @cons line line' ls ls' hline hls ih =>
    obtain ⟨hfront, hrest⟩ := ih
    rw [chunks, chunks]
    cases hline with
    | same line =>
      by_cases htag : isTagLine line = true
      · simp only [if_pos htag]
        exact ⟨trivial, .cons ⟨_, _, _, rfl, by rw [hfront], .same _⟩ hrest⟩
      · simp only [if_neg htag]
        exact ⟨by rw [hfront], hrest⟩
    | @tag front rest title title' hblank halias hends =>
      obtain ⟨hstart, htag⟩ := isTagLine_tag hblank halias rest
      obtain ⟨hstart', htag'⟩ := isTagLine_tag hblank halias.symm rest
      have hopened : RetitledLine (· = []) ('@' :: (title.toList ++ rest))
          ('@' :: (title'.toList ++ rest)) := @RetitledLine.tag _ [] _ _ _ rfl halias hends
      simp only [if_pos htag, if_pos htag', hstart, hstart']
      exact ⟨trivial, .cons ⟨_, _, _, rfl, by rw [hfront], hopened⟩ hrest⟩

end RetitledLine

/-! ### What is read -/

/-- **Directives with other titles.** -/
structure Directive.Retitled (d d' : Directive) : Prop where
  /-- The titles are the same or aliases. -/
  title : d.title = d'.title ∨ IsAlias d.title d'.title
  /-- Everything else is the same. -/
  eq : d' = { d with title := d'.title }

/-- **Blocks with other titles.** -/
structure Block.Retitled (block block' : Block) : Prop where
  /-- The texts are the same. -/
  description : block.description = block'.description
  /-- The directives have other titles. -/
  directives : List.Forall₂ Directive.Retitled block.directives block'.directives

/-- A title ends where it is told to. -/
theorem Directive.ofText_title {title : String} (htitle : ∀ c ∈ title.toList, isTitleChar c = true)
    {cs : List Char} (hcs : ∀ c ∈ cs.head?, isTitleChar c = false) :
    ofText ('@' :: (title.toList ++ cs)) =
      let (type, afterType) := takeType title cs
      let (name, afterName) := takeName title afterType
      { title, type
        name := String.ofList name
        description := String.ofList (stripDash (Text.trim afterName)) } := by
  obtain ⟨htake, hdrop⟩ := takeWhile_dropWhile_append htitle hcs
  have hleading : Text.dropLeading '@' ('@' :: (title.toList ++ cs)) = title.toList ++ cs := rfl
  simp only [ofText, hleading, htake, hdrop, String.ofList_toList]

/-- **What is read of a retitled directive.** -/
theorem Directive.retitled_ofChunk {line line' : List Char} (h : RetitledLine (· = []) line line')
    (rest : List (List Char)) : (ofChunk (line :: rest)).Retitled (ofChunk (line' :: rest)) := by
  cases h with
  | same => exact ⟨Or.inl rfl, rfl⟩
  | @tag front tail title title' hfront halias hends =>
    subst hfront
    -- the lines that follow start with a line feed, so they do not go on with the title
    have hmore : ∀ c ∈ (tail ++ rest.flatMap ('\n' :: ·)).head?, isTitleChar c = false := by
      intro c hc
      rcases tail with _ | ⟨d, tail⟩
      · rcases rest with _ | ⟨next, rest⟩
        · cases hc
        · obtain rfl : '\n' = c := Option.some.inj hc
          decide
      · exact hends c hc
    have hread : ∀ {title title'}, IsAlias title title' → ofChunk
        (([] ++ '@' :: (title.toList ++ tail)) :: rest) =
          let (type, afterType) := takeType title (tail ++ rest.flatMap ('\n' :: ·))
          let (name, afterName) := takeName title afterType
          { title, type
            name := String.ofList name
            description := String.ofList (stripDash (Text.trim afterName)) } := by
      intro title title' halias
      rw [ofChunk, Text.joinLines_cons, List.nil_append, List.cons_append, List.append_assoc]
      exact ofText_title halias.isTitle.2 hmore
    obtain ⟨hname, htype⟩ := halias.takes_eq
    have htakeName : takeName title = takeName title' := by
      funext cs
      rw [takeName, takeName, hname]
    have htakeType : takeType title = takeType title' := by
      funext cs
      rw [takeType, takeType, htype]
    rw [hread halias, hread halias.symm, htakeName, htakeType]
    exact ⟨Or.inr halias, rfl⟩

/-- The lines of a retitled body are retitled, their gutters taken off. -/
theorem RetitledBody.lines {body body' : String} (h : RetitledBody body body') :
    List.Forall₂ (RetitledLine fun front => ∀ c ∈ front, isBlank c = true)
      ((Text.lines body.toList).map stripGutter) ((Text.lines body'.toList).map stripGutter) := by
  rw [List.forall₂_map_left_iff, List.forall₂_map_right_iff]
  exact (RetitledLine.linesOfPieces h).imp fun _ _ hline => hline.stripGutter

/-- **What is read of a retitled comment** are the same directives but for their titles. -/
theorem Block.retitled_ofComment {body body' : String} (h : RetitledBody body body') :
    (ofComment body).Retitled (ofComment body') := by
  obtain ⟨hfront, hrest⟩ := RetitledLine.forall₂_chunks h.lines
  refine ⟨congrArg (fun front => String.ofList (Text.trim (Text.joinLines front))) hfront, ?_⟩
  refine List.forall₂_map_left_iff.mpr (List.forall₂_map_right_iff.mpr (hrest.imp ?_))
  rintro _ _ ⟨line, line', rest, rfl, rfl, hline⟩
  exact Directive.retitled_ofChunk hline rest

/-! ### The text of a retitled comment -/

/-- No mark that ends a comment comes in with a title. -/
theorem RetitledLine.not_infix {Front : List Char → Prop} {line line' : List Char}
    (h : RetitledLine Front line line') (hline : ¬['*', '/'] <:+: line) :
    ¬['*', '/'] <:+: line' := by
  cases h with
  | same => exact hline
  | @tag front rest title title' _ halias hends =>
    obtain ⟨-, htitle⟩ := halias.symm.isTitle
    have hfront : ¬['*', '/'] <:+: front := fun h =>
      hline (h.trans (List.prefix_append front _).isInfix)
    have hrest : ¬['*', '/'] <:+: rest := fun h => by
      refine hline (h.trans (List.IsSuffix.isInfix ?_))
      exact ⟨front ++ '@' :: title.toList, by simp⟩
    have htitle' : ¬['*', '/'] <:+: title'.toList := fun h =>
      absurd (htitle '*' (h.subset List.mem_cons_self)) (by decide)
    have hends : title'.toList.getLast? ≠ some '*' := fun hlast =>
      absurd (htitle '*' (List.mem_of_getLast? hlast)) (by decide)
    have htail := Text.not_infix_pair_append htitle' hrest (Or.inl hends)
    exact Text.not_infix_pair_append hfront (Text.not_infix_pair_cons (by decide) htail)
      (Or.inr (by simp))

theorem forall_mem_of_forall₂ {α β : Type} {R : α → β → Prop} {P : α → Prop} {Q : β → Prop}
    {l : List α} {l' : List β} (h : List.Forall₂ R l l') (hR : ∀ a b, R a b → P a → Q b)
    (hl : ∀ a ∈ l, P a) : ∀ b ∈ l', Q b := by
  induction h with
  | nil => exact List.forall_mem_nil _
  | @cons a b l l' hab _ ih =>
    obtain ⟨ha, hl⟩ := List.forall_mem_cons.mp hl
    exact List.forall_mem_cons.mpr ⟨hR a b hab ha, ih hl⟩

/-- Retitled lines are joined to a text that starts as it did. -/
theorem RetitledLine.head?_joinLines {Front : List Char → Prop} {ls ls' : List (List Char)}
    (h : List.Forall₂ (RetitledLine Front) ls ls') :
    (Text.joinLines ls').head? = (Text.joinLines ls).head? := by
  cases h with
  | nil => rfl
  | @cons line line' ls ls' hline hls =>
    rw [Text.joinLines_cons, Text.joinLines_cons, List.head?_append, List.head?_append, hline.head?]
    cases hls <;> rfl

/-- **A retitled doc comment is still one.** -/
theorem RetitledBody.isDocBody {body body' : String} (h : RetitledBody body body')
    (hbody : IsDocBody body.toList) : IsDocBody body'.toList := by
  obtain ⟨hmark, hslash⟩ := hbody
  have hjoin (cs : List Char) : Text.joinLines (cs.splitOn '\n') = cs := List.intercalate_splitOn _
  have hhead := RetitledLine.head?_joinLines h
  rw [hjoin, hjoin] at hhead
  refine ⟨?_, hhead ▸ hslash⟩
  rw [← hjoin body'.toList]
  refine Text.not_infix_pair_joinLines (by decide) (by decide) ?_
  exact forall_mem_of_forall₂ h (fun _ _ hline => hline.not_infix) fun line hline hfound =>
    hmark (hfound.trans (Text.infix_of_mem_splitOn hline))

end ApiAnnotation
