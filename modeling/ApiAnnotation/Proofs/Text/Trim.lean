import ApiAnnotation.Text.Trim
import Mathlib.Data.List.TakeWhile

/-!
# White space around a text

A trim takes away exactly the white space that was put around a text which has none at its ends
(`ApiAnnotation.Text.trim_append_append`). What no character of white space has is checked by going
through their code points (`ApiAnnotation.blankCodes`).

White space at an end is a run of characters, and so are titles, names and types: a run goes on as
long as its characters have a property, and ends at the first one that does not
(`ApiAnnotation.takeWhile_dropWhile_append`).
-/

namespace ApiAnnotation

/-- The code points of white space. -/
def blankCodes : List Nat :=
  [0x9, 0xA, 0xB, 0xC, 0xD, 0x20, 0x85, 0xA0, 0x1680, 0x2000, 0x2001, 0x2002, 0x2003, 0x2004,
    0x2005, 0x2006, 0x2007, 0x2008, 0x2009, 0x200A, 0x2028, 0x2029, 0x202F, 0x205F, 0x3000]

theorem toNat_mem_blankCodes {c : Char} (h : isBlank c = true) : c.toNat ∈ blankCodes := by
  simp only [isBlank, Bool.or_eq_true, Bool.and_eq_true, decide_eq_true_eq, beq_iff_eq] at h
  simp only [blankCodes, List.mem_cons, List.not_mem_nil, or_false]
  omega

/-! ### Runs of characters -/

section Runs

variable {p : Char → Bool} {cs rest : List Char}

/-- What follows a run of characters with a property starts with one without it. -/
theorem head?_dropWhile_eq_false (p : Char → Bool) (cs : List Char) :
    ∀ c ∈ (cs.dropWhile p).head?, p c = false := by
  intro c hc
  have h := List.head?_dropWhile_not p cs
  rw [Option.mem_def.mp hc] at h
  exact h

/-- A run of characters with a property does not go on into a text that starts with one without
it. -/
theorem takeWhile_dropWhile_append_of_head (hrest : ∀ c ∈ rest.head?, p c = false)
    (cs : List Char) :
    (cs ++ rest).takeWhile p = cs.takeWhile p ∧
      (cs ++ rest).dropWhile p = cs.dropWhile p ++ rest := by
  induction cs with
  | nil =>
    cases rest with
    | nil => exact ⟨rfl, rfl⟩
    | cons c rest =>
      have hc : ¬p c = true := by simp [hrest c rfl]
      exact ⟨List.takeWhile_cons_of_neg hc, List.dropWhile_cons_of_neg hc⟩
  | cons c cs ih =>
    rw [List.cons_append, List.takeWhile_cons, List.takeWhile_cons, List.dropWhile_cons,
      List.dropWhile_cons, ih.1, ih.2]
    split
    · exact ⟨rfl, rfl⟩
    · exact ⟨rfl, rfl⟩

/-- A run of characters with a property ends where one without it stands. -/
theorem takeWhile_dropWhile_append (hcs : ∀ c ∈ cs, p c = true)
    (hrest : ∀ c ∈ rest.head?, p c = false) :
    (cs ++ rest).takeWhile p = cs ∧ (cs ++ rest).dropWhile p = rest := by
  obtain ⟨htake, hdrop⟩ := takeWhile_dropWhile_append_of_head hrest cs
  rw [htake, hdrop, List.takeWhile_eq_self_iff.mpr hcs, List.dropWhile_eq_nil_iff.mpr hcs]
  exact ⟨rfl, rfl⟩

end Runs

namespace Text

/-- **A text without white space at its ends.** -/
structure Trimmed (cs : List Char) : Prop where
  /-- The first character, if there is one, is not white space. -/
  head : ∀ c ∈ cs.head?, isBlank c = false
  /-- The last character, if there is one, is not white space. -/
  last : ∀ c ∈ cs.getLast?, isBlank c = false

variable {front back cs : List Char}

theorem trimmed_iff :
    Trimmed cs ↔ cs.head?.any isBlank = false ∧ cs.getLast?.any isBlank = false := by
  simp only [Option.any_eq_false]
  exact ⟨fun h => ⟨h.head, h.last⟩, fun h => ⟨h.1, h.2⟩⟩

instance (cs : List Char) : Decidable (Trimmed cs) := decidable_of_iff' _ trimmed_iff

theorem trimStart_of_forall (h : ∀ c ∈ cs, isBlank c = true) : trimStart cs = [] :=
  List.dropWhile_eq_nil_iff.mpr h

theorem trimStart_of_head (h : ∀ c ∈ cs.head?, isBlank c = false) : trimStart cs = cs := by
  cases cs with
  | nil => rfl
  | cons c cs => exact List.dropWhile_cons_of_neg (by simp [h c rfl])

theorem trimStart_append (hfront : ∀ c ∈ front, isBlank c = true) (cs : List Char) :
    trimStart (front ++ cs) = trimStart cs :=
  List.dropWhile_append_of_pos hfront

theorem trimEnd_of_last (h : ∀ c ∈ cs.getLast?, isBlank c = false) : trimEnd cs = cs := by
  rw [← List.head?_reverse] at h
  exact (congrArg List.reverse (trimStart_of_head h)).trans (List.reverse_reverse cs)

theorem trimEnd_append (hback : ∀ c ∈ back, isBlank c = true) (cs : List Char) :
    trimEnd (cs ++ back) = trimEnd cs := by
  have hreverse : ∀ c ∈ back.reverse, isBlank c = true := fun c hc =>
    hback c (List.mem_reverse.mp hc)
  rw [trimEnd, List.reverse_append, List.dropWhile_append_of_pos hreverse, trimEnd]

/-- A text with something in it keeps its first character whatever follows. -/
theorem trimStart_append_of_head (hcs : cs ≠ []) (h : ∀ c ∈ cs.head?, isBlank c = false)
    (after : List Char) : trimStart (cs ++ after) = cs ++ after := by
  obtain ⟨c, cs, rfl⟩ := List.exists_cons_of_ne_nil hcs
  exact trimStart_of_head h

/-- **A trim undoes white space around a text.** -/
theorem trim_append_append (hfront : ∀ c ∈ front, isBlank c = true)
    (hback : ∀ c ∈ back, isBlank c = true) (h : Trimmed cs) : trim (front ++ cs ++ back) = cs := by
  rw [trim, List.append_assoc, trimStart_append hfront]
  by_cases hcs : cs = []
  · subst hcs
    rw [List.nil_append, trimStart_of_forall hback]
    rfl
  · rw [trimStart_append_of_head hcs h.head, trimEnd_append hback, trimEnd_of_last h.last]

/-- White space at the end of a text makes no difference to a trim. -/
theorem trim_append (hback : ∀ c ∈ back, isBlank c = true) (cs : List Char) :
    trim (cs ++ back) = trim cs := by
  rw [trim, trimStart, List.dropWhile_append]
  split
  · next hempty =>
    rw [trim, trimStart, List.isEmpty_iff.mp hempty]
    exact congrArg trimEnd (trimStart_of_forall hback)
  · rw [trimEnd_append hback]
    rfl

/-- A text without white space at its ends is left as it is. -/
theorem Trimmed.trim_eq (h : Trimmed cs) : trim cs = cs := by
  rw [trim, trimStart_of_head h.head, trimEnd_of_last h.last]

/-- A text without white space in it has none at its ends. -/
theorem Trimmed.of_forall (h : ∀ c ∈ cs, isBlank c = false) : Trimmed cs where
  head c hc := h c (List.mem_of_head? hc)
  last c hc := h c (List.mem_of_getLast? hc)

/-! ### White space that follows a text -/

/-- A trim at the end takes white space away. -/
theorem exists_eq_trimEnd_append (cs : List Char) :
    ∃ back, (∀ c ∈ back, isBlank c = true) ∧ cs = trimEnd cs ++ back := by
  refine ⟨(cs.reverse.takeWhile isBlank).reverse, fun c hc => ?_, ?_⟩
  · exact List.all_eq_true.mp List.all_takeWhile c (List.mem_reverse.mp hc)
  · rw [trimEnd, ← List.reverse_append, List.takeWhile_append_dropWhile, List.reverse_reverse]

/-- **A trim leaves no white space at the ends.** -/
theorem trimmed_trim (cs : List Char) : Trimmed (trim cs) where
  head := by
    obtain ⟨back, -, hback⟩ := exists_eq_trimEnd_append (trimStart cs)
    intro c hc
    obtain ⟨rest, htrim⟩ := List.head?_eq_some_iff.mp (Option.mem_def.mp hc)
    have hhead : (trimStart cs).head? = some c := by
      rw [hback]
      exact congrArg (fun ds => (ds ++ back).head?) htrim
    exact head?_dropWhile_eq_false isBlank cs c hhead
  last := by
    intro c hc
    rw [trim, trimEnd, List.getLast?_reverse] at hc
    exact head?_dropWhile_eq_false isBlank _ c hc

theorem trimEnd_append_trimEnd (cs ds : List Char) :
    trimEnd (cs ++ trimEnd ds) = trimEnd (cs ++ ds) := by
  obtain ⟨back, hback, hds⟩ := exists_eq_trimEnd_append ds
  calc trimEnd (cs ++ trimEnd ds)
    _ = trimEnd (cs ++ trimEnd ds ++ back) := (trimEnd_append hback _).symm
    _ = trimEnd (cs ++ ds) := by rw [List.append_assoc, ← hds]

theorem trim_trimEnd (cs : List Char) : trim (trimEnd cs) = trim cs := by
  obtain ⟨back, hback, hcs⟩ := exists_eq_trimEnd_append cs
  calc trim (trimEnd cs)
    _ = trim (trimEnd cs ++ back) := (trim_append hback _).symm
    _ = trim cs := by rw [← hcs]

/-- White space that follows a text still does when the white space in front is taken off, though
less of it if the text was nothing else. -/
theorem exists_trimStart_append (hback : ∀ c ∈ back, isBlank c = true) (cs : List Char) :
    ∃ back', (∀ c ∈ back', isBlank c = true) ∧ trimStart (cs ++ back) = trimStart cs ++ back' := by
  rw [trimStart, List.dropWhile_append]
  split
  · next hempty =>
    rw [trimStart, List.isEmpty_iff.mp hempty]
    exact ⟨[], List.forall_mem_nil _, trimStart_of_forall hback⟩
  · exact ⟨back, hback, rfl⟩

/-- What is taken off a text stands in front. -/
theorem mem_of_mem_dropLeading {b c : Char} (h : b ∈ dropLeading c cs) : b ∈ cs := by
  rcases cs with _ | ⟨d, cs⟩
  · exact h
  · rw [dropLeading] at h
    split at h
    · exact List.mem_cons_of_mem d h
    · exact h

/-- So it does when one character in front is taken off. -/
theorem exists_dropLeading_append (hback : ∀ c ∈ back, isBlank c = true) (c : Char)
    (cs : List Char) :
    ∃ back', (∀ b ∈ back', isBlank b = true) ∧
      dropLeading c (cs ++ back) = dropLeading c cs ++ back' := by
  rcases cs with _ | ⟨d, cs⟩
  · -- there is no text, so the character can only be one of the white space
    exact ⟨dropLeading c back, fun b hb => hback b (mem_of_mem_dropLeading hb), rfl⟩
  · refine ⟨back, hback, ?_⟩
    rw [List.cons_append, dropLeading, dropLeading]
    split <;> rfl

end Text

end ApiAnnotation
