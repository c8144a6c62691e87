import ApiAnnotation.Directive.Group
import ApiAnnotation.Proofs.Text.Lines

/-!
# The first two parts of a text

Names and descriptions pack several things into one text, with dots or dashes between them. They are
read by splitting the text at every separator and taking the first two pieces, whatever follows.
Here the two are said without splitting: the first part ends where the first separator stands, and
the second one goes on from there to the next.

## Main statements

* `ApiAnnotation.Text.segments_eq_cons`: the pieces of a text start with its first part.
* `ApiAnnotation.Text.not_mem_of_mem_segments`: no separator is left in them.
* `ApiAnnotation.dashParts_eq`: what is read of a text with dashes.
-/

namespace ApiAnnotation

namespace Text

variable {sep : Char}

/-- The text before the first separator, which is all of it if there is none. -/
def firstPart (sep : Char) (text : String) : String :=
  String.ofList (text.toList.takeWhile (· ≠ sep))

/-- The text after the first separator, if there is one, up to the next one. -/
def secondPart? (sep : Char) (text : String) : Option String :=
  (text.toList.dropWhile (· ≠ sep)).tail?.map fun cs => String.ofList (cs.takeWhile (· ≠ sep))

/-- The first piece of a text ends at the first separator, and the others are those of the text
after it. -/
theorem splitOn_eq_cons (sep : Char) (cs : List Char) :
    cs.splitOn sep = cs.takeWhile (· ≠ sep) ::
      (cs.dropWhile (· ≠ sep)).tail?.elim [] (·.splitOn sep) := by
  induction cs with
  | nil => rfl
  | cons c cs ih =>
    rw [List.splitOn_cons_eq_if_modifyHead]
    by_cases hc : c = sep
    · subst hc
      simp
    · rw [if_neg (by simpa using hc), ih, List.takeWhile_cons_of_pos (by simpa using hc),
        List.dropWhile_cons_of_pos (by simpa using hc), List.modifyHead_cons]

/-- The pieces of a text are its first part, and then its second part if it has one. -/
theorem segments_eq_cons (sep : Char) (text : String) :
    ∃ rest, segments sep text = firstPart sep text :: rest ∧ rest.head? = secondPart? sep text := by
  rw [segments, splitOn_eq_cons, secondPart?]
  refine ⟨_, rfl, ?_⟩
  cases (text.toList.dropWhile (· ≠ sep)).tail? with
  | none => rfl
  | some cs => rw [Option.elim_some, splitOn_eq_cons]; rfl

theorem firstPart_mem_segments (sep : Char) (text : String) :
    firstPart sep text ∈ segments sep text := by
  obtain ⟨rest, hsegments, -⟩ := segments_eq_cons sep text
  exact hsegments ▸ List.mem_cons_self

theorem mem_segments_of_secondPart? {text part : String} (h : secondPart? sep text = some part) :
    part ∈ segments sep text := by
  obtain ⟨rest, hsegments, hrest⟩ := segments_eq_cons sep text
  exact hsegments ▸ List.mem_cons_of_mem _ (List.mem_of_head? (hrest.trans h))

/-- No separator is left in a piece of a text. -/
theorem not_mem_of_mem_segments {text part : String} (h : part ∈ segments sep text) :
    sep ∉ part.toList := by
  obtain ⟨piece, hpiece, rfl⟩ := List.mem_map.mp h
  rw [String.toList_ofList]
  exact not_mem_of_mem_splitOn hpiece

/-- The characters of a piece are found in the text. -/
theorem mem_of_mem_segments {text part : String} {c : Char} (h : part ∈ segments sep text)
    (hc : c ∈ part.toList) : c ∈ text.toList := by
  obtain ⟨piece, hpiece, rfl⟩ := List.mem_map.mp h
  rw [String.toList_ofList] at hc
  exact (infix_of_mem_splitOn hpiece).subset hc

end Text

open Text

/-- What is read of a text with dashes are its first two parts. -/
theorem dashParts_eq (text : String) :
    dashParts text = (firstPart '-' text, secondPart? '-' text) := by
  obtain ⟨rest, hsegments, hrest⟩ := segments_eq_cons '-' text
  rw [dashParts, hsegments, ← hrest, List.head?_eq_getElem?]
  rfl

end ApiAnnotation
