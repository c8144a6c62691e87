import ApiAnnotation.Proofs.Text.Boundary
import Mathlib.Data.Prod.Lex
import Mathlib.Order.Bounds.Basic
import Mathlib.Order.Nat

/-!
# The places of a source

The place of an offset is told by counting in the text before it. It can as well be found by going
through the source: every character leads on to the next column and a line feed to the next line
(`ApiAnnotation.Place.next`), until the offset is reached. Either way a character leads to a later
place (`ApiAnnotation.Place.key_lt_next`), so that the places of two boundaries are in the order of
the boundaries.

Offsets that are no boundaries are asked for as well: one inside a character, and one beyond the
end. Which characters begin before such an offset is all that matters, and these are the characters
before the next boundary, or all there are.

## Main statements

* `ApiAnnotation.Place.after_eq_foldl_next`: counting and going through a text.
* `ApiAnnotation.strictMonoOn_key_place`: the places of the boundaries are in their order.
* `ApiAnnotation.place_of_isLeast`: an offset stands at the next boundary.
* `ApiAnnotation.locates_place`: the places of a source.
-/

namespace ApiAnnotation

namespace Place

variable {cs ds : List Char}

/-! ### One character after the other -/

/-- Places in the order of reading: the line decides, and within a line the column. -/
def key (p : Place) : ℕ ×ₗ ℕ := toLex (p.line, p.column)

/-- The place after one more character. -/
def next (p : Place) (c : Char) : Place :=
  if c = '\n' then ⟨p.line + 1, 1⟩ else ⟨p.line, p.column + 1⟩

/-- **A character leads to a later place.** -/
theorem key_lt_next (p : Place) (c : Char) : p.key < (p.next c).key := by
  rw [key, key, Prod.Lex.toLex_lt_toLex, next]
  split
  · exact Or.inl (Nat.lt_succ_self p.line)
  · exact Or.inr ⟨rfl, Nat.lt_succ_self p.column⟩

/-- So do several. -/
theorem key_lt_foldl_next (p : Place) (hcs : cs ≠ []) : p.key < (cs.foldl next p).key := by
  induction cs generalizing p with
  | nil => exact absurd rfl hcs
  | cons c cs ih =>
    rw [List.foldl_cons]
    by_cases hnil : cs = []
    · subst hnil
      exact key_lt_next p c
    · exact (key_lt_next p c).trans (ih (p.next c) hnil)

/-! ### Counting -/

theorem after_nil : after [] = ⟨1, 1⟩ := rfl

/-- What one more character adds to the counts. -/
theorem after_concat (cs : List Char) (c : Char) : after (cs ++ [c]) = (after cs).next c := by
  rw [after, next, List.count_append, List.reverse_append, List.reverse_singleton,
    List.singleton_append, List.takeWhile_cons]
  by_cases hc : c = '\n'
  · subst hc
    rfl
  · rw [List.count_singleton, if_neg hc]
    simp [after, hc]

/-- The text after another is counted on from there. -/
theorem after_append (cs ds : List Char) : after (cs ++ ds) = ds.foldl next (after cs) := by
  induction ds generalizing cs with
  | nil => rw [List.append_nil, List.foldl_nil]
  | cons d ds ih => rw [List.append_cons, ih, after_concat, List.foldl_cons]

/-- **To count is to go through the text.** -/
theorem after_eq_foldl_next (cs : List Char) : after cs = cs.foldl next ⟨1, 1⟩ := by
  rw [← after_nil, ← after_append, List.nil_append]

/-- What is counted: the line feeds of a text, and the characters of its last line. -/
theorem exists_lastLine (cs : List Char) :
    ∃ front line, cs = front ++ line ∧ (∀ c ∈ front.getLast?, c = '\n') ∧ '\n' ∉ line ∧
      after cs = ⟨cs.count '\n' + 1, line.length + 1⟩ := by
  refine ⟨(cs.reverse.dropWhile (· != '\n')).reverse, (cs.reverse.takeWhile (· != '\n')).reverse,
    ?_, ?_, ?_, ?_⟩
  · rw [← List.reverse_append, List.takeWhile_append_dropWhile, List.reverse_reverse]
  · intro c hc
    rw [List.getLast?_reverse] at hc
    have hnot := List.head?_dropWhile_not (· != '\n') cs.reverse
    rw [Option.mem_def.mp hc] at hnot
    simpa using hnot
  · intro hmem
    have hne := List.mem_takeWhile_imp (List.mem_reverse.mp hmem)
    exact absurd hne (by decide)
  · rw [after, List.length_reverse]

end Place

/-! ### The places of boundaries -/

/-- The place at a boundary is that of the text before it. -/
theorem place_of_append {source : String} {before after : List Char}
    (h : source.toList = before ++ after) :
    place source (byteLength before) = Place.after before := by
  rw [place, h, beginningBefore_append]

/-- **The places of boundaries are in the order of the boundaries.** -/
theorem strictMonoOn_key_place (source : String) :
    StrictMonoOn (fun offset => (place source offset).key)
      {offset | IsBoundary source offset} := by
  rintro first hfirst second hsecond hlt
  obtain ⟨before, after, hsource, rfl⟩ := isBoundary_iff.mp hfirst
  obtain ⟨before', after', hsource', rfl⟩ := isBoundary_iff.mp hsecond
  -- what stands before the second boundary goes on from what stands before the first
  obtain ⟨mid, rfl⟩ : ∃ mid, before' = before ++ mid := by
    rcases List.append_eq_append_iff.mp (hsource.symm.trans hsource') with
      ⟨mid, hmid, -⟩ | ⟨mid, rfl, -⟩
    · exact ⟨mid, hmid⟩
    · rw [byteLength_append] at hlt
      omega
  have hmid : mid ≠ [] := by
    rintro rfl
    rw [List.append_nil] at hlt
    exact lt_irrefl _ hlt
  change (place source (byteLength before)).key < (place source (byteLength (before ++ mid))).key
  rw [place_of_append hsource, place_of_append hsource', Place.after_append]
  exact Place.key_lt_foldl_next (Place.after before) hmid

/-! ### The places of other offsets -/

/-- The boundaries from an offset on. -/
def boundariesFrom (source : String) (offset : Nat) : Set Nat :=
  {boundary | offset ≤ boundary ∧ IsBoundary source boundary}

/-- From every offset in a source on there is a next boundary. -/
theorem exists_isLeast_boundariesFrom {source : String} {offset : Nat}
    (h : offset ≤ source.utf8ByteSize) : ∃ next, IsLeast (boundariesFrom source offset) next := by
  classical
  have hexists : ∃ boundary, boundary ∈ boundariesFrom source offset :=
    ⟨source.utf8ByteSize, h, isBoundary_utf8ByteSize source⟩
  exact ⟨Nat.find hexists, Nat.isLeast_find hexists⟩

/-- **An offset stands at the next boundary**, be it inside a character or a boundary itself. -/
theorem place_of_isLeast {source : String} {offset next : Nat}
    (h : IsLeast (boundariesFrom source offset) next) :
    place source offset = place source next := by
  obtain ⟨⟨hle, hnext⟩, hleast⟩ := h
  obtain ⟨before, after, hsource, rfl⟩ := isBoundary_iff.mp hnext
  rcases hle.eq_or_lt with rfl | hlt
  · rfl
  · obtain ⟨front, c, rfl⟩ : ∃ front c, before = front ++ [c] := by
      rcases List.eq_nil_or_concat before with rfl | ⟨front, c, rfl⟩
      · exact absurd hlt (Nat.not_lt_zero offset)
      · exact ⟨front, c, List.concat_eq_append⟩
    have hcut : source.toList = front ++ c :: after := by rw [hsource, ← List.append_cons]
    -- the boundary in front of the last character is too small to be the next one
    have hfront : byteLength front < offset := by
      by_contra hge
      have hboundary : byteLength front ∈ boundariesFrom source offset :=
        ⟨not_lt.mp hge, isBoundary_iff.mpr ⟨front, c :: after, hcut, rfl⟩⟩
      have hback := hleast hboundary
      have hc := c.utf8Size_pos
      rw [byteLength_append, byteLength_cons] at hback
      omega
    have hsize : offset ≤ byteLength front + c.utf8Size := by
      rwa [byteLength_append, byteLength_cons, byteLength_nil, Nat.add_zero] at hle
    rw [place_of_append hsource, place, hcut, beginningBefore_append_cons hfront hsize]

/-- **An offset beyond the end stands at the end.** -/
theorem place_of_le {source : String} {offset : Nat} (h : source.utf8ByteSize ≤ offset) :
    place source offset = Place.after source.toList := by
  rw [place, beginningBefore_of_le (byteLength_toList source ▸ h)]

/-! ### All of them -/

/-- **What the places of a source are.** -/
structure Locates (source : String) (placed : Nat → Place) : Prop where
  /-- The place of an offset is found by going through the characters that begin before it. -/
  walked : ∀ offset, placed offset =
    ((charOffsets 0 source.toList).takeWhile (·.1 < offset)).foldl (fun p x => p.next x.2) ⟨1, 1⟩
  /-- At a boundary the line feeds before it are counted, and the characters after the last. -/
  counted : ∀ offset, IsBoundary source offset → ∃ front line rest,
    source.toList = front ++ line ++ rest ∧ offset = byteLength (front ++ line) ∧
      (∀ c ∈ front.getLast?, c = '\n') ∧ '\n' ∉ line ∧
      placed offset = ⟨(front ++ line).count '\n' + 1, line.length + 1⟩
  /-- A boundary has a later place than those before it. -/
  increasing : StrictMonoOn (fun offset => (placed offset).key) {offset | IsBoundary source offset}
  /-- Different boundaries have different places. -/
  distinct : Set.InjOn placed {offset | IsBoundary source offset}
  /-- An offset inside a character has the place of the next boundary. -/
  inside : ∀ offset ≤ source.utf8ByteSize,
    ∃ next, IsLeast (boundariesFrom source offset) next ∧ placed offset = placed next
  /-- An offset beyond the end has the place of the end. -/
  beyond : ∀ offset, source.utf8ByteSize ≤ offset → placed offset = placed source.utf8ByteSize

/-- **The places of every source.** -/
theorem locates_place (source : String) : Locates source (place source) where
  walked offset := by
    have hbefore := map_takeWhile_charOffsets 0 offset source.toList
    rw [Nat.sub_zero] at hbefore
    rw [place, Place.after_eq_foldl_next, ← hbefore, List.foldl_map]
  counted offset hoffset := by
    obtain ⟨before, rest, hsource, rfl⟩ := isBoundary_iff.mp hoffset
    obtain ⟨front, line, rfl, hfront, hline, hafter⟩ := Place.exists_lastLine before
    exact ⟨front, line, rest, hsource, rfl, hfront, hline, (place_of_append hsource).trans hafter⟩
  increasing := strictMonoOn_key_place source
  distinct := by
    intro first hfirst second hsecond heq
    exact (strictMonoOn_key_place source).injOn hfirst hsecond (congrArg Place.key heq)
  inside offset hoffset := by
    obtain ⟨next, hnext⟩ := exists_isLeast_boundariesFrom hoffset
    exact ⟨next, hnext, place_of_isLeast hnext⟩
  beyond offset hoffset := by rw [place_of_le hoffset, place_of_le le_rfl]

/-- The second byte of a character has the place of the character after it. -/
example : place "é\n*" 1 = ⟨1, 2⟩ ∧ place "é\n*" 2 = ⟨1, 2⟩ ∧ place "é\n*" 9 = ⟨2, 2⟩ := by decide

end ApiAnnotation
