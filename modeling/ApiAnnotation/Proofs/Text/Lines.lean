import ApiAnnotation.Text.Lines
import Mathlib.Data.List.Induction
import Mathlib.Data.List.Infix

/-!
# Lines joined to a text

A text that is made by joining lines has these lines, as long as no break stands in one of them
(`ApiAnnotation.Text.lines_joinLines`). The other way round, a text is joined from the pieces
between separators, such as line feeds, and what is not found in the text is not found in a piece.

## Main statements

* `ApiAnnotation.Text.lines_joinLines`: the lines of a joined text.
* `ApiAnnotation.Text.not_infix_pair_joinLines`: a mark of two characters is not made by joining.
-/

namespace ApiAnnotation.Text

variable {a b : Char} {cs ds line : List Char} {ls ms : List (List Char)}

/-! ### Joining -/

/-- The first piece stands for itself, every other follows a separator. -/
theorem intercalate_cons (sep : Char) (line : List Char) (ls : List (List Char)) :
    [sep].intercalate (line :: ls) = line ++ ls.flatMap (sep :: ·) := by
  induction ls generalizing line with
  | nil => simp
  | cons next ls ih =>
    rw [List.intercalate_cons_cons, ih, List.flatMap_cons]
    simp

theorem joinLines_cons (line : List Char) (ls : List (List Char)) :
    joinLines (line :: ls) = line ++ ls.flatMap ('\n' :: ·) :=
  intercalate_cons '\n' line ls

theorem joinLines_append (hls : ls ≠ []) (ms : List (List Char)) :
    joinLines (ls ++ ms) = joinLines ls ++ ms.flatMap ('\n' :: ·) := by
  obtain ⟨line, ls, rfl⟩ := List.exists_cons_of_ne_nil hls
  rw [List.cons_append, joinLines_cons, joinLines_cons, List.flatMap_append, List.append_assoc]

/-- A piece can be found in the text. -/
theorem infix_intercalate_of_mem (sep : Char) (h : line ∈ ls) : line <:+: [sep].intercalate ls := by
  obtain ⟨past, rest, rfl⟩ := List.append_of_mem h
  cases past with
  | nil =>
    rw [List.nil_append, intercalate_cons]
    exact (List.prefix_append _ _).isInfix
  | cons first past =>
    rw [List.cons_append, intercalate_cons, List.flatMap_append, List.flatMap_cons]
    exact ⟨first ++ past.flatMap (sep :: ·) ++ [sep], rest.flatMap (sep :: ·), by simp⟩

/-! ### The pieces between separators -/

/-- No separator is left in a piece. -/
theorem not_mem_of_mem_splitOn {sep : Char} (h : line ∈ cs.splitOn sep) : sep ∉ line := by
  induction cs generalizing line with
  | nil =>
    obtain rfl := List.mem_singleton.mp h
    exact List.not_mem_nil
  | cons c cs ih =>
    rw [List.splitOn_cons_eq_if_modifyHead] at h
    obtain ⟨piece, pieces, hpieces⟩ :=
      List.exists_cons_of_ne_nil (List.splitOn_ne_nil sep cs)
    rw [hpieces] at h ih
    split at h
    · rcases List.mem_cons.mp h with rfl | h
      · exact List.not_mem_nil
      · exact ih h
    · next hc =>
      rw [List.modifyHead_cons] at h
      rcases List.mem_cons.mp h with rfl | h
      · rintro (_ | ⟨_, hmem⟩)
        · exact hc (beq_self_eq_true _)
        · exact ih List.mem_cons_self hmem
      · exact ih (List.mem_cons_of_mem _ h)

/-- A piece of a text can be found in it. -/
theorem infix_of_mem_splitOn {sep : Char} (h : line ∈ cs.splitOn sep) : line <:+: cs := by
  have hfound := infix_intercalate_of_mem sep h
  rwa [List.intercalate_splitOn] at hfound

/-- What stands before the first separator belongs to the first piece. -/
theorem splitOn_append_of_not_mem {sep : Char} (h : sep ∉ cs) (ds : List Char) :
    (cs ++ ds).splitOn sep = (ds.splitOn sep).modifyHead (cs ++ ·) := by
  induction cs with
  | nil => cases hds : ds.splitOn sep <;> exact hds
  | cons c cs ih =>
    rw [List.mem_cons, not_or] at h
    rw [List.cons_append, List.splitOn_cons_eq_if_modifyHead, if_neg (by simpa using Ne.symm h.1),
      ih h.2, List.modifyHead_modifyHead]
    rfl

/-- A character of the text is a separator or stands in a piece. -/
theorem eq_or_exists_mem_splitOn (sep : Char) {c : Char} (h : c ∈ cs) :
    c = sep ∨ ∃ piece ∈ cs.splitOn sep, c ∈ piece := by
  have hcs : [sep].intercalate (cs.splitOn sep) = cs := List.intercalate_splitOn sep
  rw [← hcs] at h
  clear hcs
  generalize cs.splitOn sep = pieces at h ⊢
  induction pieces with
  | nil => exact absurd h List.not_mem_nil
  | cons piece pieces ih =>
    rcases eq_or_ne pieces [] with rfl | hpieces
    · rw [List.intercalate_singleton] at h
      exact Or.inr ⟨piece, List.mem_cons_self, h⟩
    · rw [List.intercalate_cons_of_ne_nil hpieces, List.append_assoc, List.mem_append,
        List.mem_append, List.mem_singleton] at h
      rcases h with h | h | h
      · exact Or.inr ⟨piece, List.mem_cons_self, h⟩
      · exact Or.inl h
      · obtain rfl | ⟨other, hother, hc⟩ := ih h
        · exact Or.inl rfl
        · exact Or.inr ⟨other, List.mem_cons_of_mem piece hother, hc⟩

/-! ### The lines of a joined text -/

theorem dropReturn_of_not_mem (h : '\r' ∉ line) : dropReturn line = line := by
  rw [dropReturn, if_neg]
  exact fun hlast => h (List.mem_of_getLast? hlast)

/-- A line is a piece that was ended by nothing else, or by a return. -/
theorem eq_or_eq_dropReturn_append (line : List Char) :
    line = dropReturn line ∨ line = dropReturn line ++ ['\r'] := by
  rw [dropReturn]
  split
  · next hlast =>
    obtain ⟨front, rfl⟩ := List.getLast?_eq_some_iff.mp hlast
    rw [List.dropLast_concat]
    exact Or.inr rfl
  · exact Or.inl rfl

/-- A line of a text is a piece between its line feeds, but for a return at the end. -/
theorem exists_of_mem_lines (h : line ∈ lines cs) :
    ∃ piece ∈ cs.splitOn '\n', piece = line ∨ piece = line ++ ['\r'] := by
  rw [lines] at h
  generalize cs.splitOn '\n' = pieces at h ⊢
  induction pieces with
  | nil => cases h
  | cons piece pieces ih =>
    rcases pieces with _ | ⟨next, rest⟩
    · rw [linesOfPieces] at h
      split at h
      · cases h
      · exact ⟨line, h, Or.inl rfl⟩
    · rw [linesOfPieces] at h
      rcases List.mem_cons.mp h with rfl | h
      · exact ⟨piece, List.mem_cons_self, eq_or_eq_dropReturn_append piece⟩
      · obtain ⟨later, hlater, hline⟩ := ih h
        exact ⟨later, List.mem_cons_of_mem piece hlater, hline⟩

theorem linesOfPieces_append_singleton (hreturn : ∀ line ∈ ls, '\r' ∉ line) {last : List Char}
    (hlast : last ≠ []) : linesOfPieces (ls ++ [last]) = ls ++ [last] := by
  induction ls with
  | nil => rw [List.nil_append, linesOfPieces, if_neg hlast]
  | cons line ls ih =>
    obtain ⟨next, rest, hnext⟩ :=
      List.exists_cons_of_ne_nil (List.append_ne_nil_of_right_ne_nil ls (List.cons_ne_nil last []))
    have ih := ih fun line hmem => hreturn line (List.mem_cons_of_mem _ hmem)
    rw [hnext] at ih
    rw [List.cons_append, hnext, linesOfPieces, ih,
      dropReturn_of_not_mem (hreturn line List.mem_cons_self)]

/-- **The lines of a text made by joining lines** are these lines. The last is not empty, as an
empty one is not counted. -/
theorem lines_joinLines {last : List Char} (hbreak : ∀ line ∈ ls, '\n' ∉ line ∧ '\r' ∉ line)
    (hlast : last ≠ []) (hlastBreak : '\n' ∉ last) :
    lines (joinLines (ls ++ [last])) = ls ++ [last] := by
  rw [lines, joinLines, List.splitOn_intercalate]
  · exact linesOfPieces_append_singleton (fun line hmem => (hbreak line hmem).2) hlast
  · intro line hmem
    rcases List.mem_append.mp hmem with hmem | hmem
    · exact (hbreak line hmem).1
    · exact List.mem_singleton.mp hmem ▸ hlastBreak
  · exact List.append_ne_nil_of_right_ne_nil ls (List.cons_ne_nil last [])

/-! ### The lines of a text that goes on -/

/-- A piece that another one follows is a line. -/
theorem linesOfPieces_append {pieces rest : List (List Char)} (hrest : rest ≠ []) :
    linesOfPieces (pieces ++ rest) = pieces.map dropReturn ++ linesOfPieces rest := by
  induction pieces with
  | nil => rfl
  | cons piece pieces ih =>
    obtain ⟨next, later, hnext⟩ :=
      List.exists_cons_of_ne_nil (List.append_ne_nil_of_right_ne_nil pieces hrest)
    rw [hnext] at ih
    rw [List.cons_append, hnext, linesOfPieces, ih, List.map_cons, List.cons_append]

/-- **A line feed between two texts ends a line** and keeps their lines apart. -/
theorem lines_append_newline (cs ds : List Char) :
    lines (cs ++ '\n' :: ds) = (cs.splitOn '\n').map dropReturn ++ lines ds := by
  have hsplit : (cs ++ '\n' :: ds).splitOn '\n' = cs.splitOn '\n' ++ ds.splitOn '\n' :=
    List.splitOnP_append_cons cs ds (by simp)
  rw [lines, hsplit, linesOfPieces_append (List.splitOn_ne_nil '\n' ds)]
  rfl

/-! ### Marks of two characters -/

/-- A mark of two characters is made by an append only where its characters meet. -/
theorem not_infix_pair_append (hcs : ¬[a, b] <:+: cs) (hds : ¬[a, b] <:+: ds)
    (hmeet : cs.getLast? ≠ some a ∨ ds.head? ≠ some b) : ¬[a, b] <:+: cs ++ ds := by
  -- the mark is found in one of the texts or is cut in two by the append
  rw [List.infix_append_iff_ne_nil]
  rintro (hfound | hfound | ⟨left, right, hleft, hright, hpair, hsuffix, hfront⟩)
  · exact hcs hfound
  · exact hds hfound
  · -- neither half is empty, so they are the two characters
    obtain ⟨x, left, rfl⟩ := List.exists_cons_of_ne_nil hleft
    obtain ⟨rfl, hb⟩ := List.cons.inj hpair
    obtain ⟨rfl, hone⟩ | ⟨-, rfl⟩ := List.append_eq_singleton_iff.mp hb.symm
    · obtain ⟨cs, rfl⟩ := hsuffix
      obtain ⟨ds, rfl⟩ := hfront
      rw [hone] at hmeet
      simp at hmeet
    · exact hright rfl

theorem not_infix_pair_cons {c : Char} (hc : c ≠ a) (hcs : ¬[a, b] <:+: cs) :
    ¬[a, b] <:+: c :: cs := by
  rw [List.infix_cons_iff]
  rintro (hfront | hfound)
  · exact hc (List.cons_prefix_cons.mp hfront).1.symm
  · exact hcs hfound

/-- **A mark of two characters is not made by joining lines** when a line feed is not one of
them. -/
theorem not_infix_pair_joinLines (ha : a ≠ '\n') (hb : b ≠ '\n')
    (h : ∀ line ∈ ls, ¬[a, b] <:+: line) : ¬[a, b] <:+: joinLines ls := by
  cases ls with
  | nil => exact fun hfound => List.cons_ne_nil a [b] (List.eq_nil_of_infix_nil hfound)
  | cons line ls =>
    rw [joinLines_cons]
    induction ls using List.reverseRecOn with
    | nil =>
      rw [List.flatMap_nil, List.append_nil]
      exact h line List.mem_cons_self
    | append_singleton ls last ih =>
      have hls : ∀ l ∈ line :: ls, ¬[a, b] <:+: l := fun l hmem =>
        h l (List.cons_subset_cons line (List.subset_append_left ls [last]) hmem)
      have hlast : ¬[a, b] <:+: last := h last (by simp)
      rw [List.flatMap_append, ← List.append_assoc, List.flatMap_singleton]
      refine not_infix_pair_append (ih hls) (not_infix_pair_cons ha.symm hlast) (Or.inr ?_)
      exact fun hhead => hb (Option.some.inj hhead).symm

end ApiAnnotation.Text
