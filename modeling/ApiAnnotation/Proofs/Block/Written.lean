import ApiAnnotation.Block.Comment
import ApiAnnotation.Proofs.Text.Lines
import ApiAnnotation.Proofs.Text.Trim

/-!
# Writing doc comments

An annotation block is written as a doc comment: a gutter in front of every line, the lines of the
description first, and then every directive from a line of its own on. This file says how a block is
written and which blocks are written in such a way that their parts can be told apart at all
(`ApiAnnotation.Block.WellFormed`); whether they are read back is left to
`ApiAnnotation.Proofs.Block.RoundTrip`.

## Main definitions

* `ApiAnnotation.Block.written`: the doc comment of a block.
* `ApiAnnotation.Block.WellFormed`: blocks whose lines are what they look like.

## Main statements

* `ApiAnnotation.Directive.plain_written`: a directive is written without the end of a comment.
* `ApiAnnotation.Directive.splitOn_written`: the first line of a directive opens it, no other line
  opens one.
-/

namespace ApiAnnotation

/-! ### The text of a comment -/

/-- A text with a space in front, if there is a text. -/
def spaced (cs : List Char) : List Char := if cs = [] then [] else ' ' :: cs

/-- The text of a type: its name in braces, or a star where it has none. -/
def TypeExpr.written (t : TypeExpr) : List Char := '\x7b' :: (t.name.getD "*").toList ++ ['}']

/-- The text of the type of a directive, empty where it has none. -/
def Directive.typeText (d : Directive) : List Char := d.type.elim [] TypeExpr.written

/-- The text of a directive up to its description. -/
def Directive.opening (d : Directive) : List Char :=
  '@' :: d.title.toList ++ spaced d.typeText ++ spaced d.name.toList

/-- The text of a directive. -/
def Directive.written (d : Directive) : List Char := d.opening ++ spaced d.description.toList

/-- The lines of a description: an empty one has none. -/
def descriptionLines (description : String) : List (List Char) :=
  if description = "" then [] else description.toList.splitOn '\n'

/-- The lines of a block. -/
def Block.writtenLines (block : Block) : List (List Char) :=
  descriptionLines block.description ++ block.directives.flatMap fun d => d.written.splitOn '\n'

/-- **The doc comment of a block**: its opening, every line behind a gutter, and its end, each on a
line of its own. -/
def Block.written (block : Block) : String :=
  String.ofList (Text.joinLines
    (["/**".toList] ++ block.writtenLines.map (" * ".toList ++ ·) ++ [" */".toList]))

/-! ### What can be written -/

/-- Text that can stand in a comment: it has no carriage return, and the comment does not end
in it. -/
structure Plain (cs : List Char) : Prop where
  /-- The comment goes on. -/
  unended : ¬['*', '/'] <:+: cs
  /-- No line is ended but by a line feed. -/
  unreturned : '\r' ∉ cs

/-- **Directives whose parts are what they look like.** -/
structure Directive.WellFormed (d : Directive) : Prop where
  /-- The title is not empty. -/
  title_ne : d.title ≠ ""
  /-- The title consists of characters that may stand in one. -/
  title : ∀ c ∈ d.title.toList, isTitleChar c = true
  /-- Only directives that take a type have one. -/
  typed : d.type ≠ none → takesType d.title = true
  /-- A type that has a name has a plain one. -/
  type : ∀ t ∈ d.type, ∀ name ∈ t.name, isNamePath name.toList = true
  /-- Only directives that take a name have one. -/
  named : d.name ≠ "" → takesName d.title = true
  /-- No white space stands in the name. -/
  name : ∀ c ∈ d.name.toList, isBlank c = false
  /-- A name is not taken for a type. -/
  brace : d.type = none → d.name.toList.head? ≠ some '\x7b'
  /-- The name can stand in a comment. -/
  plainName : Plain d.name.toList
  /-- No white space stands around the description. -/
  trimmed : Text.Trimmed d.description.toList
  /-- The description can stand in a comment. -/
  plainDescription : Plain d.description.toList
  /-- No line that the description begins opens a directive. -/
  lines : ∀ line ∈ (d.description.toList.splitOn '\n').tail, isTagLine line = false

/-- **Blocks whose parts are what they look like.** -/
structure Block.WellFormed (block : Block) : Prop where
  /-- No white space stands around the description. -/
  trimmed : Text.Trimmed block.description.toList
  /-- The description can stand in a comment. -/
  plain : Plain block.description.toList
  /-- No line of the description opens a directive. -/
  lines : ∀ line ∈ block.description.toList.splitOn '\n', isTagLine line = false
  /-- The directives are well-formed. -/
  directives : ∀ d ∈ block.directives, d.WellFormed

/-! ### Characters of titles and names -/

theorem isBlank_of_isTitleChar {c : Char} (h : isTitleChar c = true) : isBlank c = false := by
  rw [isTitleChar, Bool.or_eq_true, beq_iff_eq] at h
  rcases h with h | rfl
  · have hrange : (decide (65 ≤ c.val ∧ c.val ≤ 90) ||
        (decide (97 ≤ c.val) && decide (c.val ≤ 122)) ||
        (decide (48 ≤ c.val) && decide (c.val ≤ 57))) = true := h
    simp only [Bool.or_eq_true, Bool.and_eq_true, decide_eq_true_eq,
      UInt32.le_iff_toNat_le] at hrange
    change ((65 ≤ c.toNat ∧ c.toNat ≤ 90) ∨ 97 ≤ c.toNat ∧ c.toNat ≤ 122) ∨
      48 ≤ c.toNat ∧ c.toNat ≤ 57 at hrange
    simp only [isBlank, Bool.or_eq_false_iff, Bool.and_eq_false_imp, decide_eq_true_eq,
      decide_eq_false_iff_not, Nat.not_le, beq_eq_false_iff_ne, ne_eq]
    omega
  · decide

/-- The characters of a plain name are those of titles, dollars and dots. -/
theorem of_mem_of_isNamePath {cs : List Char} (hcs : isNamePath cs = true) {c : Char}
    (hc : c ∈ cs) : isTitleChar c = true ∨ c = '$' ∨ c = '.' := by
  obtain rfl | ⟨piece, hpiece, hc⟩ := Text.eq_or_exists_mem_splitOn '.' hc
  · exact Or.inr (Or.inr rfl)
  · have hall := (Bool.and_eq_true_iff.mp (List.all_eq_true.mp hcs piece hpiece)).2
    rcases Bool.or_eq_true_iff.mp (List.all_eq_true.mp hall c hc) with htitle | hdollar
    · exact Or.inl htitle
    · exact Or.inr (Or.inl (beq_iff_eq.mp hdollar))

/-- The characters between the braces of a written type. -/
theorem TypeExpr.of_mem_name {t : TypeExpr} (ht : ∀ name ∈ t.name, isNamePath name.toList = true)
    {c : Char} (hc : c ∈ (t.name.getD "*").toList) :
    isTitleChar c = true ∨ c ∈ ['$', '.', '*'] := by
  rcases hname : t.name with _ | name
  · rw [hname] at hc
    obtain rfl := List.mem_singleton.mp hc
    exact Or.inr (by decide)
  · rw [hname] at hc
    rcases of_mem_of_isNamePath (ht name hname) hc with htitle | rfl | rfl
    · exact Or.inl htitle
    · exact Or.inr (by decide)
    · exact Or.inr (by decide)

theorem mem_spaced {cs : List Char} {c : Char} (h : c ∈ spaced cs) : c = ' ' ∨ c ∈ cs := by
  rw [spaced] at h
  split at h
  · exact absurd h List.not_mem_nil
  · exact List.mem_cons.mp h

/-- The characters of a title and a type. -/
theorem Directive.WellFormed.of_mem_heading {d : Directive} (h : d.WellFormed) {c : Char}
    (hc : c ∈ '@' :: d.title.toList ++ spaced d.typeText) :
    isTitleChar c = true ∨ c ∈ [' ', '@', '\x7b', '\x7d', '$', '.', '*'] := by
  rcases List.mem_append.mp hc with hc | hc
  · rcases List.mem_cons.mp hc with rfl | hc
    · exact Or.inr (by decide)
    · exact Or.inl (h.title c hc)
  · rcases mem_spaced hc with rfl | hc
    · exact Or.inr (by decide)
    · rw [Directive.typeText] at hc
      rcases ht : d.type with _ | t
      · rw [ht] at hc
        exact absurd hc List.not_mem_nil
      · rw [ht, Option.elim_some, TypeExpr.written, List.mem_append, List.mem_cons,
          List.mem_singleton] at hc
        rcases hc with (rfl | hc) | rfl
        · exact Or.inr (by decide)
        · exact (TypeExpr.of_mem_name (h.type t ht) hc).imp_right
            (List.drop_subset 4 [' ', '@', '\x7b', '\x7d', '$', '.', '*'] ·)
        · exact Or.inr (by decide)

/-! ### Plain texts -/

section Plain

variable {cs ds : List Char}

theorem head?_spaced_ne {c : Char} (hc : c ≠ ' ') (cs : List Char) :
    (spaced cs).head? ≠ some c := by
  rw [spaced]
  split
  · exact (Option.some_ne_none c).symm
  · exact fun hhead => hc (Option.some.inj hhead).symm

theorem Plain.of_forall (h : ∀ c ∈ cs, c ≠ '/' ∧ c ≠ '\r') : Plain cs where
  unended hfound := (h '/' (hfound.subset (by decide))).1 rfl
  unreturned hmem := (h '\r' hmem).2 rfl

theorem Plain.of_infix (h : Plain ds) (hfound : cs <:+: ds) : Plain cs where
  unended hend := h.unended (hend.trans hfound)
  unreturned hmem := h.unreturned (hfound.subset hmem)

theorem Plain.append (hcs : Plain cs) (hds : Plain ds) (hhead : ds.head? ≠ some '/') :
    Plain (cs ++ ds) where
  unended := Text.not_infix_pair_append hcs.unended hds.unended (Or.inr hhead)
  unreturned hmem := (List.mem_append.mp hmem).elim hcs.unreturned hds.unreturned

theorem plain_spaced (h : Plain cs) : Plain (spaced cs) := by
  rw [spaced]
  split
  · exact Plain.of_forall fun c hc => absurd hc List.not_mem_nil
  · refine ⟨Text.not_infix_pair_cons (by decide) h.unended, fun hmem => ?_⟩
    rcases List.mem_cons.mp hmem with hspace | hmem
    · exact absurd hspace (by decide)
    · exact h.unreturned hmem

end Plain

/-! ### The lines of a directive -/

namespace Directive

variable {d : Directive}

theorem WellFormed.plain_opening (h : d.WellFormed) : Plain d.opening := by
  refine Plain.append (Plain.of_forall fun c hc => ?_) (plain_spaced h.plainName)
    (head?_spaced_ne (by decide) _)
  -- neither character stands in a title or a type
  have hchar := h.of_mem_heading hc
  constructor <;> rintro rfl <;> exact absurd hchar (by decide)

/-- **A directive is written without the end of a comment.** -/
theorem WellFormed.plain_written (h : d.WellFormed) : Plain d.written :=
  h.plain_opening.append (plain_spaced h.plainDescription) (head?_spaced_ne (by decide) _)

theorem WellFormed.newline_not_mem_opening (h : d.WellFormed) : '\n' ∉ d.opening := by
  intro hmem
  rcases List.mem_append.mp hmem with hmem | hmem
  · exact absurd (h.of_mem_heading hmem) (by decide)
  · rcases mem_spaced hmem with hspace | hmem
    · exact absurd hspace (by decide)
    · exact absurd (h.name _ hmem) (by decide)

/-- **The lines of a directive**: the opening stands in the first, and the lines after it are those
of the description. -/
theorem WellFormed.splitOn_written (h : d.WellFormed) :
    ∃ rest, d.written.splitOn '\n' =
      (d.opening ++ rest) :: (d.description.toList.splitOn '\n').tail := by
  rw [written, Text.splitOn_append_of_not_mem h.newline_not_mem_opening, spaced]
  split
  · next hnil =>
    rw [hnil]
    exact ⟨[], rfl⟩
  · obtain ⟨line, lines, hlines⟩ :=
      List.exists_cons_of_ne_nil (List.splitOn_ne_nil '\n' d.description.toList)
    refine ⟨' ' :: line, ?_⟩
    rw [List.splitOn_cons_eq_if_modifyHead, if_neg (by decide), hlines]
    rfl

/-- The first line of a directive opens it. -/
theorem WellFormed.isTagLine_opening (h : d.WellFormed) (rest : List Char) :
    isTagLine (d.opening ++ rest) = true := by
  obtain ⟨c, cs, htitle⟩ :=
    List.exists_cons_of_ne_nil (mt String.toList_eq_nil_iff.mp h.title_ne)
  rw [isTagLine, opening, htitle]
  exact h.title c (htitle ▸ List.mem_cons_self)

end Directive

/-! ### The lines of a block -/

namespace Block

variable {block : Block}

/-- Every line of a block is one line, and can stand in a comment. -/
theorem WellFormed.of_mem_writtenLines (h : block.WellFormed) {line : List Char}
    (hline : line ∈ block.writtenLines) : Plain line ∧ '\n' ∉ line := by
  rcases List.mem_append.mp hline with hline | hline
  · rw [descriptionLines] at hline
    split at hline
    · exact absurd hline List.not_mem_nil
    · exact ⟨h.plain.of_infix (Text.infix_of_mem_splitOn hline),
        Text.not_mem_of_mem_splitOn hline⟩
  · obtain ⟨d, hd, hline⟩ := List.mem_flatMap.mp hline
    exact ⟨(h.directives d hd).plain_written.of_infix (Text.infix_of_mem_splitOn hline),
      Text.not_mem_of_mem_splitOn hline⟩

end Block

end ApiAnnotation
