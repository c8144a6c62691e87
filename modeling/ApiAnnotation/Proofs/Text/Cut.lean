import ApiAnnotation.Text.Trim
import Mathlib.Data.List.Infix

/-!
# Where a text is cut

`ApiAnnotation.Text.cutAt?` cuts a text at a mark. Which of several occurrences it takes is said
without the search: the one that no other overlaps from the left, so that the mark is not found in
the text before it, not even together with the characters of the mark but the last.
-/

namespace ApiAnnotation.Text

variable {mark cs before after : List Char}

/-- A mark in front of a text that it does not fit into is not found there. -/
private theorem not_prefix_append_dropLast (hmark : mark ≠ []) (c : Char)
    (h : ¬mark <:+: c :: (before ++ mark.dropLast)) :
    ¬mark <+: c :: (before ++ mark ++ after) := by
  intro hfront
  refine h (List.IsPrefix.isInfix ?_)
  have hsplit : c :: (before ++ mark ++ after) =
      c :: (before ++ mark.dropLast) ++ (mark.getLast hmark :: after) := by
    conv_lhs => rw [← List.dropLast_append_getLast hmark]
    simp
  refine List.prefix_of_prefix_length_le hfront ⟨_, hsplit.symm⟩ ?_
  have hpos : 0 < mark.length := List.length_pos_iff.mpr hmark
  rw [List.length_cons, List.length_append, List.length_dropLast]
  omega

/-- **A text is cut at the first occurrence of the mark.** -/
theorem cutAt?_eq_some_iff (hmark : mark ≠ []) :
    cutAt? mark cs = some (before, after) ↔
      cs = before ++ mark ++ after ∧ ¬mark <:+: before ++ mark.dropLast := by
  constructor
  · intro h
    refine ⟨eq_append_of_cutAt? h, ?_⟩
    induction cs generalizing before with
    | nil =>
      rw [cutAt?, if_neg hmark] at h
      exact absurd h.symm (Option.some_ne_none _)
    | cons c cs ih =>
      rw [cutAt?] at h
      split at h
      · obtain ⟨rfl, -⟩ := Prod.mk.inj (Option.some.inj h)
        intro hfound
        have hlength := hfound.length_le
        have hpos : 0 < mark.length := List.length_pos_iff.mpr hmark
        rw [List.nil_append, List.length_dropLast] at hlength
        omega
      · next hfront =>
        obtain ⟨⟨b, a⟩, hb, hab⟩ := Option.map_eq_some_iff.mp h
        obtain ⟨rfl, rfl⟩ := Prod.mk.inj hab
        rw [List.cons_append, List.infix_cons_iff]
        -- the search went on from here, so the mark does not start here
        rintro (hhere | hlater)
        · refine hfront (List.isPrefixOf_iff_prefix.mpr (hhere.trans ?_))
          rw [eq_append_of_cutAt? hb, List.append_assoc]
          refine List.cons_prefix_cons.mpr ⟨rfl, (List.prefix_append_right_inj b).mpr ?_⟩
          exact (List.dropLast_prefix mark).trans (List.prefix_append mark a)
        · exact ih hb hlater
  · rintro ⟨rfl, h⟩
    induction before with
    | nil =>
      obtain ⟨m, mark, rfl⟩ := List.exists_cons_of_ne_nil hmark
      rw [List.nil_append, List.cons_append, cutAt?, if_pos (by simp)]
      simp
    | cons c before ih =>
      have htail : ¬mark <:+: before ++ mark.dropLast := fun hfound =>
        h (hfound.trans (List.suffix_cons c _).isInfix)
      rw [List.cons_append, List.cons_append, cutAt?, if_neg, ih htail]
      · rfl
      · rw [List.isPrefixOf_iff_prefix]
        exact not_prefix_append_dropLast hmark c h

/-- The mark is not found before the cut. -/
theorem not_infix_of_cutAt? (hmark : mark ≠ []) (h : cutAt? mark cs = some (before, after)) :
    ¬mark <:+: before := fun hfound =>
  ((cutAt?_eq_some_iff hmark).mp h).2 (hfound.trans (List.prefix_append before _).isInfix)

/-- **The first occurrence of a mark stays the first** when more text follows. -/
theorem cutAt?_append (hmark : mark ≠ []) (h : cutAt? mark cs = some (before, after))
    (more : List Char) : cutAt? mark (cs ++ more) = some (before, after ++ more) := by
  obtain ⟨rfl, hfirst⟩ := (cutAt?_eq_some_iff hmark).mp h
  exact (cutAt?_eq_some_iff hmark).mpr ⟨List.append_assoc _ _ _, hfirst⟩

/-- **The first occurrence of a mark is the first one** without the text that follows it. -/
theorem cutAt?_of_append {more : List Char} (hmark : mark ≠ [])
    (h : cutAt? mark (cs ++ more) = some (before, after ++ more)) :
    cutAt? mark cs = some (before, after) := by
  obtain ⟨hcs, hfirst⟩ := (cutAt?_eq_some_iff hmark).mp h
  rw [← List.append_assoc, List.append_left_inj] at hcs
  exact (cutAt?_eq_some_iff hmark).mpr ⟨hcs, hfirst⟩

end ApiAnnotation.Text
