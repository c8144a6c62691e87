import ApiAnnotation.Text.Position
import Mathlib.Data.List.TakeWhile

/-!
# Boundaries between characters

An offset counts bytes, and a character takes up to four of them, so most offsets that a computation
could come up with lie inside a character. Those that do not are the boundaries of the text
(`ApiAnnotation.IsBoundary`), and they are exactly the numbers of bytes of what the text starts with
(`ApiAnnotation.isBoundary_iff`).

Three things find offsets in a text: going through its characters with the offset of each
(`ApiAnnotation.charOffsets`), looking for the first character with a property
(`ApiAnnotation.offsetOf`), and asking which characters begin before an offset. What each of them
finds is said here for the characters before and after it, so that no later proof has to count
bytes.
-/

namespace ApiAnnotation

variable {cs before after : List Char}

/-! ### The bytes of a text -/

/-- The bytes of a text are those of its UTF-8 form. -/
theorem utf8ByteSize_ofList (cs : List Char) :
    (String.ofList cs).utf8ByteSize = byteLength cs := by
  induction cs with
  | nil => rfl
  | cons c cs ih =>
    rw [String.ofList_cons, String.utf8ByteSize_append, String.utf8ByteSize_singleton, ih,
      byteLength_cons]

theorem byteLength_toList (text : String) : byteLength text.toList = text.utf8ByteSize := by
  rw [← utf8ByteSize_ofList, String.ofList_toList]

theorem byteLength_pos {cs : List Char} (h : cs ≠ []) : 0 < byteLength cs := by
  obtain ⟨c, cs, rfl⟩ := List.exists_cons_of_ne_nil h
  have hc := c.utf8Size_pos
  rw [byteLength_cons]
  omega

/-- The front of a text is known by the number of its bytes. -/
theorem eq_of_append_of_byteLength {front back front' back' : List Char}
    (h : front ++ back = front' ++ back') (hbytes : byteLength front = byteLength front') :
    front = front' := by
  have hnil : ∀ mid : List Char, byteLength mid = 0 → mid = [] := by
    intro mid hmid
    by_contra hne
    have hpos := byteLength_pos hne
    omega
  rcases List.append_eq_append_iff.mp h with ⟨mid, rfl, -⟩ | ⟨mid, rfl, -⟩
  · rw [byteLength_append] at hbytes
    rw [hnil mid (by omega), List.append_nil]
  · rw [byteLength_append] at hbytes
    rw [hnil mid (by omega), List.append_nil]

/-! ### Boundaries -/

/-- **A boundary of a text**: an offset in the text or at its end that lies in no character. -/
abbrev IsBoundary (text : String) (offset : Nat) : Prop := String.Pos.Raw.IsValid text ⟨offset⟩

/-- At a boundary the text is cut into two. -/
theorem isBoundary_iff {text : String} {offset : Nat} :
    IsBoundary text offset ↔
      ∃ before after, text.toList = before ++ after ∧ offset = byteLength before := by
  rw [IsBoundary, String.Pos.Raw.isValid_iff_exists_append]
  constructor
  · rintro ⟨before, after, rfl, hoffset⟩
    refine ⟨before.toList, after.toList, String.toList_append, ?_⟩
    rw [byteLength_toList]
    exact congrArg String.Pos.Raw.byteIdx hoffset
  · rintro ⟨before, after, htext, rfl⟩
    refine ⟨String.ofList before, String.ofList after, ?_, ?_⟩
    · rw [← String.ofList_append, ← htext, String.ofList_toList]
    · rw [← utf8ByteSize_ofList]
      rfl

/-- The end of a text is one of its boundaries. -/
theorem isBoundary_utf8ByteSize (text : String) : IsBoundary text text.utf8ByteSize :=
  isBoundary_iff.mpr ⟨text.toList, [], (List.append_nil _).symm, (byteLength_toList text).symm⟩

/-! ### The characters before an offset -/

theorem beginningBefore_zero (cs : List Char) : beginningBefore 0 cs = [] := by
  cases cs <;> rfl

theorem beginningBefore_cons {offset : Nat} (h : 0 < offset) (c : Char) (cs : List Char) :
    beginningBefore offset (c :: cs) = c :: beginningBefore (offset - c.utf8Size) cs := by
  obtain ⟨offset, rfl⟩ := Nat.exists_eq_add_one.mpr h
  rfl

/-- The offsets behind a text are those of what follows it. -/
theorem beginningBefore_add (before cs : List Char) (offset : Nat) :
    beginningBefore (byteLength before + offset) (before ++ cs) =
      before ++ beginningBefore offset cs := by
  induction before with
  | nil => rw [byteLength_nil, Nat.zero_add, List.nil_append, List.nil_append]
  | cons c before ih =>
    have hc := c.utf8Size_pos
    rw [List.cons_append, byteLength_cons, beginningBefore_cons (by omega), List.cons_append, ← ih,
      Nat.add_assoc, Nat.add_sub_cancel_left]

/-- **Before a boundary stands what the text is cut into there.** -/
theorem beginningBefore_append (before after : List Char) :
    beginningBefore (byteLength before) (before ++ after) = before := by
  rw [← Nat.add_zero (byteLength before), beginningBefore_add, beginningBefore_zero,
    List.append_nil]

/-- **Before an offset inside a character** that character begins as well. -/
theorem beginningBefore_append_cons {offset : Nat} {c : Char} (h : byteLength before < offset)
    (hc : offset ≤ byteLength before + c.utf8Size) (after : List Char) :
    beginningBefore offset (before ++ c :: after) = before ++ [c] := by
  obtain ⟨rest, rfl⟩ := Nat.exists_eq_add_of_le h.le
  rw [beginningBefore_add, beginningBefore_cons (by omega),
    Nat.sub_eq_zero_of_le (by omega), beginningBefore_zero]

/-- **Before an offset beyond the end** all characters begin. -/
theorem beginningBefore_of_le {offset : Nat} (h : byteLength cs ≤ offset) :
    beginningBefore offset cs = cs := by
  obtain ⟨rest, rfl⟩ := Nat.exists_eq_add_of_le h
  have hnil : beginningBefore rest [] = [] := by cases rest <;> rfl
  have hadd := beginningBefore_add cs [] rest
  rwa [hnil, List.append_nil] at hadd

/-! ### Characters with their offsets -/

/-- The characters of a text, each with the offset at which it begins, if the text itself begins at
a given one. -/
def charOffsets : Nat → List Char → List (Nat × Char)
  | _, [] => []
  | offset, c :: cs => (offset, c) :: charOffsets (offset + c.utf8Size) cs

/-- Going through the characters until the offsets reach a given one, one meets those that begin
before it. -/
theorem map_takeWhile_charOffsets (start stop : Nat) (cs : List Char) :
    ((charOffsets start cs).takeWhile (·.1 < stop)).map Prod.snd =
      beginningBefore (stop - start) cs := by
  induction cs generalizing start with
  | nil => cases stop - start <;> rfl
  | cons c cs ih =>
    rw [charOffsets, List.takeWhile_cons]
    by_cases h : start < stop
    · rw [if_pos (by simpa using h), List.map_cons, ih, beginningBefore_cons (by omega),
        Nat.sub_add_eq]
    · rw [if_neg (by simpa using h), Nat.sub_eq_zero_of_le (by omega), beginningBefore_zero,
        List.map_nil]

/-- The offset of the first character with a property, or that of the end if there is none. -/
def offsetOf (p : Char → Bool) (cs : List Char) : Nat :=
  ((charOffsets 0 cs).find? fun x => p x.2).elim (byteLength cs) Prod.fst

/-- None of the characters before it has the property. -/
theorem elim_find?_charOffsets (p : Char → Bool) (start : Nat) (cs : List Char) :
    ((charOffsets start cs).find? fun x => p x.2).elim (start + byteLength cs) Prod.fst =
      start + byteLength (cs.takeWhile (!p ·)) := by
  induction cs generalizing start with
  | nil => rfl
  | cons c cs ih =>
    rw [charOffsets, List.find?_cons, List.takeWhile_cons]
    cases h : p c with
    | true => rfl
    | false =>
      rw [byteLength_cons, ← Nat.add_assoc]
      exact (ih (start + c.utf8Size)).trans (Nat.add_assoc _ _ _)

theorem offsetOf_eq (p : Char → Bool) (cs : List Char) :
    offsetOf p cs = byteLength (cs.takeWhile (!p ·)) := by
  have h := elim_find?_charOffsets p 0 cs
  rwa [Nat.zero_add, Nat.zero_add] at h

end ApiAnnotation
