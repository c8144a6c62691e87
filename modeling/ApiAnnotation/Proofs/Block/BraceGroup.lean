import ApiAnnotation.Proofs.Block.Brace
import ApiAnnotation.Proofs.Text.Boundary
import Mathlib.Data.Option.Basic

/-!
# The group of braces in front of a text

A type ends where the brace in front of it is closed. Said without reading, it is the shortest text,
apart from the empty one, in which as many braces are closed as are opened
(`ApiAnnotation.IsGroup`).

The brace that closes it can be found by a count, which goes up at a brace that opens and down at one
that closes, until it is zero again (`ApiAnnotation.BraceCount`). A count is never negative, so that
to count down from zero would be a fault, and nothing in a single step excludes it. What does is said
of all that was read (`ApiAnnotation.BraceCount.Says`): in each of its fronts more braces are opened
than closed. This holds at the start only because the text starts with a brace; without it the very
first character could be the fault.

## Main statements

* `ApiAnnotation.BraceCount.Says.step`, `ApiAnnotation.BraceCount.Says.run`: a step, and so a run,
  is without fault.
* `ApiAnnotation.exists_isGroup_iff`: which texts have a group in front.
* `ApiAnnotation.braced?_of_isGroup`, `ApiAnnotation.braced?_eq_none`: a type is read off a text as
  its group.
* `ApiAnnotation.exists_isGroup_iff_startsWithType`: the group, and the type that is told by counting
  within it.
-/

namespace ApiAnnotation

variable {cs group read : List Char} {c : Char}

/-! ### Groups -/

/-- **The group in front of a text** that starts with a brace: the shortest front of it, apart from
the empty one, in which as many braces are closed as are opened. -/
structure IsGroup (cs group : List Char) : Prop where
  /-- The text starts with a brace. -/
  opened : cs.head? = some '\x7b'
  /-- It goes on with the rest of the group. -/
  isPrefix : group <+: cs
  /-- There is something in the group. -/
  ne_nil : group ≠ []
  /-- As many braces are closed as are opened. -/
  even : group.count '\x7b' = group.count '}'
  /-- This is so in no shorter front. -/
  shortest : ∀ front, front <+: cs → front ≠ [] → front.count '\x7b' = front.count '}' →
    group.length ≤ front.length

namespace IsGroup

/-- A text has one group in front. -/
theorem unique {group' : List Char} (h : IsGroup cs group) (h' : IsGroup cs group') :
    group = group' := by
  have hle := h.shortest group' h'.isPrefix h'.ne_nil h'.even
  have hge := h'.shortest group h.isPrefix h.ne_nil h.even
  exact (List.prefix_of_prefix_length_le h.isPrefix h'.isPrefix hle).eq_of_length
    (le_antisymm hle hge)

/-- What follows a text does not change its group. -/
theorem append (h : IsGroup cs group) (more : List Char) : IsGroup (cs ++ more) group where
  opened := by
    obtain ⟨rest, rfl⟩ := List.head?_eq_some_iff.mp h.opened
    rfl
  isPrefix := h.isPrefix.trans (List.prefix_append cs more)
  ne_nil := h.ne_nil
  even := h.even
  shortest := by
    intro front hfront hne heven
    by_contra hlt
    have hwithin : front <+: group :=
      List.prefix_of_prefix_length_le hfront (h.isPrefix.trans (List.prefix_append cs more))
        (not_le.mp hlt).le
    exact hlt (h.shortest front (hwithin.trans h.isPrefix) hne heven)

end IsGroup

/-! ### Counting -/

/-- What could go wrong when a text is read by counting and by cutting at offsets. -/
inductive ReadingFault where
  /-- A count of zero was to go down. -/
  | belowZero
  /-- The text was to be cut at an offset that is no boundary. -/
  | offBoundary (offset : Nat)

/-- A count goes down by one. -/
def countDown : Nat → Except ReadingFault Nat
  | 0 => .error .belowZero
  | depth + 1 => .ok depth

/-- **The braces of a text, counted.** -/
inductive BraceCount where
  /-- So many braces are open. -/
  | counting (depth : Nat)
  /-- The brace in front was closed by the one at an offset. -/
  | closed (offset : Nat)

namespace BraceCount

/-- Reads one character, which begins at an offset. Nothing is counted any more once the brace in
front is closed. -/
def step : BraceCount → Nat × Char → Except ReadingFault BraceCount
  | .closed offset, _ => .ok (.closed offset)
  | .counting depth, (offset, c) =>
    if c = '\x7b' then .ok (.counting (depth + 1))
    else if c = '}' then do
      let depth ← countDown depth
      return if depth = 0 then .closed offset else .counting depth
    else .ok (.counting depth)

/-- Reads a text. -/
def ofText (cs : List Char) : Except ReadingFault BraceCount :=
  (charOffsets 0 cs).foldlM step (.counting 0)

/-- A text that does not start with a brace can be the fault at once. -/
example : ofText ['}'] = .error .belowZero := rfl

/-- **What a count says of the text that was read.** As long as the brace in front is open, the count
is what was opened and not closed, and in no front of the text was as much closed as opened. Once it
is closed, the text up to there is the group. -/
def Says (read : List Char) : BraceCount → Prop
  | .counting depth => read.count '\x7b' = read.count '}' + depth ∧
      ∀ front, front <+: read → front ≠ [] → front.count '}' < front.count '\x7b'
  | .closed offset => ∃ inside after, read = '\x7b' :: (inside ++ '}' :: after) ∧
      offset = byteLength ('\x7b' :: inside) ∧ IsGroup read ('\x7b' :: (inside ++ ['}']))

/-- One more character is counted if it is the one that is looked for. -/
private theorem count_concat (read : List Char) (c d : Char) :
    (read ++ [c]).count d = read.count d + if c = d then 1 else 0 := by
  rw [List.count_append, List.count_singleton]
  simp only [beq_iff_eq]

/-- Of the fronts of a longer text only the text itself is new. -/
private theorem forall_front_concat
    (hread : ∀ front, front <+: read → front ≠ [] → front.count '}' < front.count '\x7b')
    (hlast : (read ++ [c]).count '}' < (read ++ [c]).count '\x7b') :
    ∀ front, front <+: read ++ [c] → front ≠ [] → front.count '}' < front.count '\x7b' := by
  intro front hfront hne
  rcases List.prefix_concat_iff.mp hfront with rfl | hfront
  · exact hlast
  · exact hread front hfront hne

/-- A text in each front of which more braces are opened than closed starts with one. -/
private theorem exists_eq_cons (hne : read ≠ [])
    (hread : ∀ front, front <+: read → front ≠ [] → front.count '}' < front.count '\x7b') :
    ∃ inside, read = '\x7b' :: inside := by
  obtain ⟨c, inside, rfl⟩ := List.exists_cons_of_ne_nil hne
  have hfirst := hread [c] ⟨inside, rfl⟩ (List.cons_ne_nil c [])
  have hmem : '\x7b' ∈ [c] := List.count_pos_iff.mp (by omega)
  rw [List.mem_singleton.mp hmem]
  exact ⟨inside, rfl⟩

/-- **The brace that brings the count to zero closes the group.** -/
private theorem isGroup_concat (hne : read ≠ [])
    (hcount : read.count '\x7b' = read.count '}' + 1)
    (hread : ∀ front, front <+: read → front ≠ [] → front.count '}' < front.count '\x7b') :
    IsGroup (read ++ ['}']) (read ++ ['}']) where
  opened := by
    obtain ⟨inside, rfl⟩ := exists_eq_cons hne hread
    rfl
  isPrefix := List.prefix_rfl
  ne_nil := by simp
  even := by
    rw [count_concat, count_concat, if_neg (by decide), if_pos rfl, hcount]
  shortest := by
    intro front hfront hnil heven
    rcases List.prefix_concat_iff.mp hfront with rfl | hfront
    · exact le_rfl
    · have hmore := hread front hfront hnil
      omega

/-- **A step is without fault**, and what the count says goes on to be true, if the text starts with
a brace. -/
theorem Says.step {s : BraceCount} (hs : s.Says read) (hstart : read = [] → c = '\x7b') :
    ∃ s', s.step (byteLength read, c) = .ok s' ∧ s'.Says (read ++ [c]) := by
  cases s with
  | closed offset =>
    obtain ⟨inside, after, hread, hoffset, hgroup⟩ := hs
    exact ⟨.closed offset, rfl, inside, after ++ [c], by simp [hread], hoffset, hgroup.append [c]⟩
  | counting depth =>
    obtain ⟨hcount, hfronts⟩ := hs
    by_cases hopen : c = '\x7b'
    · subst hopen
      have hup : (read ++ ['\x7b']).count '\x7b' = (read ++ ['\x7b']).count '}' + (depth + 1) := by
        rw [count_concat, count_concat, if_pos rfl, if_neg (by decide)]
        omega
      exact ⟨.counting (depth + 1), rfl, hup, forall_front_concat hfronts (by omega)⟩
    have hne : read ≠ [] := fun hnil => hopen (hstart hnil)
    have hopened := hfronts read List.prefix_rfl hne
    by_cases hclose : c = '}'
    · subst hclose
      -- more is opened than closed, so the count is not zero
      obtain ⟨depth, rfl⟩ : ∃ d, depth = d + 1 := Nat.exists_eq_add_one.mpr (by omega)
      by_cases hzero : depth = 0
      · subst hzero
        obtain ⟨inside, rfl⟩ := exists_eq_cons hne hfronts
        exact ⟨.closed _, rfl, inside, [], rfl, rfl, isGroup_concat hne hcount hfronts⟩
      · have hdown : (read ++ ['}']).count '\x7b' = (read ++ ['}']).count '}' + depth := by
          rw [count_concat, count_concat, if_neg (by decide), if_pos rfl]
          omega
        exact ⟨.counting depth, congrArg Except.ok (if_neg hzero), hdown,
          forall_front_concat hfronts (by omega)⟩
    · have hsame : (read ++ [c]).count '\x7b' = (read ++ [c]).count '}' + depth := by
        rw [count_concat, count_concat, if_neg hopen, if_neg hclose]
        omega
      refine ⟨.counting depth, ?_, hsame, forall_front_concat hfronts (by omega)⟩
      rw [BraceCount.step, if_neg hopen, if_neg hclose]

/-- **A run is without fault.** -/
theorem Says.run {s : BraceCount} (hs : s.Says read)
    (hstart : read = [] → ∀ c ∈ cs.head?, c = '\x7b') :
    ∃ s', (charOffsets (byteLength read) cs).foldlM BraceCount.step s = .ok s' ∧
      s'.Says (read ++ cs) := by
  -- what is still to be read gets shorter as what was read gets longer
  induction cs generalizing read s with
  | nil => exact ⟨s, rfl, by rwa [List.append_nil]⟩
  | cons c cs ih =>
    obtain ⟨next, hnext, hsays⟩ := hs.step fun hnil => hstart hnil c rfl
    obtain ⟨s', hs', hsays'⟩ := ih hsays fun hnil => absurd hnil (by simp)
    rw [byteLength_append, byteLength_cons, byteLength_nil, Nat.add_zero] at hs'
    refine ⟨s', ?_, by simpa using hsays'⟩
    rw [charOffsets, List.foldlM_cons, hnext]
    exact hs'

/-- **The braces of a text that starts with one are counted without fault.** -/
theorem exists_ofText (hopened : ∀ c ∈ cs.head?, c = '\x7b') :
    ∃ s, ofText cs = .ok s ∧ s.Says cs := by
  have hnil : Says [] (.counting 0) :=
    ⟨rfl, fun front hfront hne => absurd (List.prefix_nil.mp hfront) hne⟩
  exact hnil.run fun _ => hopened

/-! ### The brace that is found -/

/-- Where the brace in front was closed, if it was. -/
def offset? : BraceCount → Option Nat
  | .counting _ => none
  | .closed offset => some offset

/-- A count that has ended stays as it is. -/
theorem foldlM_step_closed (offset : Nat) (xs : List (Nat × Char)) :
    xs.foldlM step (.closed offset) = .ok (.closed offset) := by
  induction xs with
  | nil => rfl
  | cons x xs ih => rw [List.foldlM_cons]; exact ih

/-- **The count finds the brace at which a type is cut off.** The brace in front is counted as well,
so the count is one more than the number of braces that are open within the type. -/
theorem offset?_foldlM_step (depth offset : Nat) (cs : List Char) :
    offset? <$> (charOffsets offset cs).foldlM step (.counting (depth + 1)) =
      .ok ((untilClosed? depth cs).map fun (inside, _) => offset + byteLength inside) := by
  -- a character within the type moves the offset on as it lengthens the type
  have hinner (c : Char) (cut : Option (List Char × List Char)) (offset : Nat) :
      (cut.map fun (inside, after) => (c :: inside, after)).map
          (fun (inside, _) => offset + byteLength inside) =
        cut.map fun (inside, _) => offset + c.utf8Size + byteLength inside := by
    simp only [Option.map_map, Function.comp_def, byteLength_cons, Nat.add_assoc]
  fun_induction untilClosed? depth cs generalizing offset with
  | case1 => rfl
  | case2 depth cs inner ih =>
    rw [hinner]
    exact ih (depth + 1) _
  | case3 cs inner =>
    -- the count is back at zero
    rw [charOffsets, List.foldlM_cons]
    exact congrArg (offset? <$> ·) (foldlM_step_closed offset _)
  | case4 cs depth inner _ ih =>
    rw [hinner]
    exact ih depth _
  | case5 depth c cs inner hopen hclose ih =>
    have hstep : step (.counting (depth + 1)) (offset, c) = .ok (.counting (depth + 1)) := by
      rw [step, if_neg hopen, if_neg hclose]
    rw [hinner, charOffsets, List.foldlM_cons, hstep]
    exact ih depth _

end BraceCount

/-! ### The group that is read -/

variable {rest inside after : List Char}

/-- Nothing of a text is lost when it is cut at a brace. -/
theorem eq_append_of_mem_untilClosed? (depth : Nat) (cs : List Char) :
    ∀ cut ∈ untilClosed? depth cs, cs = cut.1 ++ '}' :: cut.2 := by
  -- a character within the type is put in front again
  have hinner (c : Char) {cs : List Char} {cut? : Option (List Char × List Char)}
      (ih : ∀ cut ∈ cut?, cs = cut.1 ++ '}' :: cut.2) :
      ∀ cut ∈ cut?.map fun (inside, after) => (c :: inside, after),
        c :: cs = cut.1 ++ '}' :: cut.2 := by
    refine Option.forall_mem_map.mpr fun cut hcut => ?_
    rw [ih cut hcut, List.cons_append]
  fun_induction untilClosed? depth cs with
  | case1 => simp
  | case2 depth cs inner ih => exact hinner '\x7b' (ih (depth + 1))
  | case3 cs inner => simp
  | case4 cs depth inner _ ih => exact hinner '}' (ih depth)
  | case5 depth c cs inner _ _ ih => exact hinner c (ih depth)

/-- Counting the braces of a text that starts with one comes to what is cut off behind it. -/
theorem BraceCount.exists_ofText_cons (rest : List Char) :
    ∃ s, ofText ('\x7b' :: rest) = .ok s ∧ s.Says ('\x7b' :: rest) ∧
      s.offset? = (untilClosed? 0 rest).map fun (inside, _) => 1 + byteLength inside := by
  have hopened : ∀ c ∈ ('\x7b' :: rest).head?, c = '\x7b' := fun c hc => (Option.some.inj hc).symm
  obtain ⟨s, hs, hsays⟩ := exists_ofText hopened
  refine ⟨s, hs, hsays, ?_⟩
  have hcount : offset? <$> ofText ('\x7b' :: rest) = _ := offset?_foldlM_step 0 1 rest
  rw [hs] at hcount
  exact Except.ok.inj hcount

/-- **What is cut off behind a brace is the rest of its group.** -/
theorem isGroup_of_untilClosed? (h : untilClosed? 0 rest = some (inside, after)) :
    IsGroup ('\x7b' :: rest) ('\x7b' :: (inside ++ ['}'])) := by
  obtain ⟨s, -, hsays, hoffset⟩ := BraceCount.exists_ofText_cons rest
  rw [h, Option.map_some] at hoffset
  cases s with
  | counting depth => cases hoffset
  | closed offset =>
    obtain ⟨inside', after', hrest, hbytes, hgroup⟩ := hsays
    obtain rfl := Option.some.inj hoffset
    -- both cuts are at the same offset
    have hsame : inside = inside' := by
      refine eq_of_append_of_byteLength
        ((eq_append_of_mem_untilClosed? 0 rest _ h).symm.trans (List.cons.inj hrest).2) ?_
      exact Nat.add_left_cancel hbytes
    rwa [hsame]

/-- **If nothing is cut off**, there is no group: the brace stays open. -/
theorem forall_front_of_untilClosed? (h : untilClosed? 0 rest = none) :
    ∀ front, front <+: '\x7b' :: rest → front ≠ [] → front.count '}' < front.count '\x7b' := by
  obtain ⟨s, -, hsays, hoffset⟩ := BraceCount.exists_ofText_cons rest
  rw [h, Option.map_none] at hoffset
  cases s with
  | counting depth => exact hsays.2
  | closed offset => cases hoffset

/-- **Which texts have a group in front.** -/
theorem exists_isGroup_iff (cs : List Char) : (∃ group, IsGroup cs group) ↔
    cs.head? = some '\x7b' ∧
      ∃ front, front <+: cs ∧ front ≠ [] ∧ front.count '\x7b' = front.count '}' := by
  constructor
  · rintro ⟨group, h⟩
    exact ⟨h.opened, group, h.isPrefix, h.ne_nil, h.even⟩
  · rintro ⟨hopened, front, hfront, hne, heven⟩
    obtain ⟨rest, rfl⟩ := List.head?_eq_some_iff.mp hopened
    cases h : untilClosed? 0 rest with
    | none =>
      have hmore := forall_front_of_untilClosed? h front hfront hne
      omega
    | some cut => exact ⟨_, isGroup_of_untilClosed? h⟩

/-- **A type is read off a text as its group**, without the braces and the white space at its
ends. -/
theorem braced?_of_isGroup (h : IsGroup (group ++ after) group) :
    braced? (group ++ after) = some (Text.trim group.tail.dropLast, after) := by
  obtain ⟨rest, hrest⟩ := List.head?_eq_some_iff.mp h.opened
  rw [hrest] at h
  cases hcut : untilClosed? 0 rest with
  | none =>
    have hmore := forall_front_of_untilClosed? hcut group h.isPrefix h.ne_nil
    have heven := h.even
    omega
  | some cut =>
    obtain ⟨inside, after'⟩ := cut
    obtain rfl := h.unique (isGroup_of_untilClosed? hcut)
    -- what follows the group is what was left behind the cut
    obtain rfl : after = after' := by
      have hcons : inside ++ ['}'] ++ after = rest := (List.cons.inj hrest).2
      rw [eq_append_of_mem_untilClosed? 0 rest _ hcut, List.append_assoc] at hcons
      exact (List.cons.inj (List.append_cancel_left hcons)).2
    rw [hrest, braced?, if_pos rfl, hcut, List.tail_cons, List.dropLast_concat]
    rfl

/-- **Without a group no type is read.** -/
theorem braced?_eq_none (h : ¬∃ group, IsGroup cs group) : braced? cs = none := by
  rcases cs with _ | ⟨c, rest⟩
  · rfl
  · rw [braced?]
    split
    · next hc =>
      subst hc
      cases hcut : untilClosed? 0 rest with
      | none => rfl
      | some cut => exact absurd ⟨_, isGroup_of_untilClosed? hcut⟩ h
    · rfl

/-- So a text has a group in front exactly if it starts with a type. -/
theorem exists_isGroup_iff_startsWithType (cs : List Char) :
    (∃ group, IsGroup cs group) ↔ StartsWithType cs := by
  rw [← isSome_braced?_iff]
  constructor
  · rintro ⟨group, h⟩
    obtain ⟨after, rfl⟩ := h.isPrefix
    rw [braced?_of_isGroup h]
    rfl
  · intro hread
    by_contra h
    rw [braced?_eq_none h] at hread
    cases hread

end ApiAnnotation
