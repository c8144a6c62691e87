import ApiAnnotation.Block.Comment

/-!
# The brace that closes a type

A type is read up to the brace that closes the one in front of it. Whether there is such a brace is
said here by counting (`ApiAnnotation.isSome_braced?_iff`), so that it can be told of a text without
reading it.
-/

namespace ApiAnnotation

variable {cs inside after tail : List Char}

/-- **A text that starts with a type**: the brace in front is closed, which is to say that some
closing brace has as many opening as closing ones between it and the front. -/
def StartsWithType (cs : List Char) : Prop :=
  ∃ inside after, cs = '\x7b' :: (inside ++ '}' :: after) ∧ inside.count '\x7b' = inside.count '}'

theorem StartsWithType.head? (h : StartsWithType cs) :
    cs.head? = some '\x7b' := by
  obtain ⟨inside, after, rfl, -⟩ := h
  rfl

theorem not_startsWithType_nil : ¬StartsWithType [] := fun h =>
  absurd h.head? (Option.some_ne_none _).symm

/-- Where a text is cut at a brace, its first character stands before the cut, unless it is itself
the brace. -/
private theorem exists_cut_cons_iff {c : Char} {p : List Char → Prop} (h : c = '}' → ¬p []) :
    (∃ inside after, c :: cs = inside ++ '}' :: after ∧ p inside) ↔
      ∃ inside after, cs = inside ++ '}' :: after ∧ p (c :: inside) := by
  constructor
  · rintro ⟨_ | ⟨d, inside⟩, after, hcut, hp⟩
    · exact absurd hp (h (List.cons.inj hcut).1)
    · obtain ⟨rfl, hrest⟩ := List.cons.inj hcut
      exact ⟨inside, after, hrest, hp⟩
  · rintro ⟨inside, after, rfl, hp⟩
    exact ⟨c :: inside, after, rfl, hp⟩

/-- The brace is found if the closing ones catch up with those that are open. -/
theorem isSome_untilClosed?_iff (depth : Nat) (cs : List Char) :
    (untilClosed? depth cs).isSome = true ↔
      ∃ inside after, cs = inside ++ '}' :: after ∧
        inside.count '\x7b' + depth = inside.count '}' := by
  fun_induction untilClosed? depth cs with
  | case1 => simp
  | case2 depth cs inner ih =>
    -- one more brace is open, inside and in the count
    rw [Option.isSome_map, ih, exists_cut_cons_iff fun hclose => absurd hclose (by decide)]
    refine exists_congr fun inside => exists_congr fun after => and_congr_right fun _ => ?_
    rw [List.count_cons_self, List.count_cons_of_ne (by decide)]
    omega
  | case3 cs inner =>
    -- nothing is open, so this is the brace
    exact ⟨fun _ => ⟨[], cs, rfl, rfl⟩, fun _ => rfl⟩
  | case4 cs depth inner _ ih =>
    -- a brace that closes one of those within cannot be the one looked for
    rw [Option.isSome_map, ih, exists_cut_cons_iff fun _ hnil => absurd hnil (by simp)]
    refine exists_congr fun inside => exists_congr fun after => and_congr_right fun _ => ?_
    rw [List.count_cons_self, List.count_cons_of_ne (by decide)]
    omega
  | case5 depth c cs inner hopen hclose ih =>
    rw [Option.isSome_map, ih, exists_cut_cons_iff fun h => absurd h hclose]
    refine exists_congr fun inside => exists_congr fun after => and_congr_right fun _ => ?_
    rw [List.count_cons_of_ne hopen, List.count_cons_of_ne hclose]

/-- **A type is read off a text exactly if the text starts with one.** -/
theorem isSome_braced?_iff (cs : List Char) : (braced? cs).isSome = true ↔ StartsWithType cs := by
  rw [StartsWithType]
  cases cs with
  | nil => simp [braced?]
  | cons c cs =>
    rw [braced?]
    split
    · next hc =>
      subst hc
      rw [Option.isSome_map, isSome_untilClosed?_iff]
      simp
    · next hc => simp [hc]

instance (cs : List Char) : Decidable (StartsWithType cs) :=
  decidable_of_iff _ (isSome_braced?_iff cs)

/-- The text after a brace that closes does not matter. -/
theorem startsWithType_append_iff (htail : '}' ∉ tail) :
    StartsWithType (cs ++ tail) ↔ StartsWithType cs := by
  constructor
  · rintro ⟨inside, after, hcut, hcount⟩
    rw [← List.cons_append] at hcut
    rcases List.append_eq_append_iff.mp hcut with ⟨rest, hinside, hrest⟩ | ⟨rest, hinside, hrest⟩
    · -- the brace would stand in the tail
      exact absurd (hrest ▸ by simp) htail
    · rcases List.cons_eq_append_iff.mp hrest with ⟨-, hrest⟩ | ⟨rest, rfl, -⟩
      · exact absurd (hrest ▸ List.mem_cons_self) htail
      · exact ⟨inside, rest, hinside, hcount⟩
  · rintro ⟨inside, after, rfl, hcount⟩
    exact ⟨inside, after ++ tail, by simp, hcount⟩

/-- A type without braces in it is read up to its end. -/
theorem untilClosed?_append (hinside : ∀ c ∈ inside, c ≠ '\x7b' ∧ c ≠ '}') (after : List Char) :
    untilClosed? 0 (inside ++ '}' :: after) = some (inside, after) := by
  induction inside with
  | nil => rfl
  | cons c inside ih =>
    obtain ⟨hopen, hclose⟩ := hinside c List.mem_cons_self
    have ih := ih fun d hd => hinside d (List.mem_cons_of_mem c hd)
    simp only [List.cons_append, untilClosed?, if_neg hopen, if_neg hclose, ih, Option.map_some]

/-! ### Text without a brace that closes -/

theorem untilClosed?_eq_none (htail : '}' ∉ tail) (depth : Nat) :
    untilClosed? depth tail = none := by
  rw [← Option.not_isSome_iff_eq_none, isSome_untilClosed?_iff]
  rintro ⟨inside, after, rfl, -⟩
  exact htail (by simp)

theorem untilClosed?_append_of_not_mem (htail : '}' ∉ tail) (depth : Nat) (cs : List Char) :
    untilClosed? depth (cs ++ tail) =
      (untilClosed? depth cs).map fun (inside, after) => (inside, after ++ tail) := by
  induction cs generalizing depth with
  | nil => exact untilClosed?_eq_none htail depth
  | cons c cs ih =>
    -- however many braces are open, the character goes to the inside on both sides
    have hinner (depth : Nat) :
        ((untilClosed? depth (cs ++ tail)).map fun (inside, after) => (c :: inside, after)) =
          ((untilClosed? depth cs).map fun (inside, after) => (c :: inside, after)).map
            fun (inside, after) => (inside, after ++ tail) := by
      rw [ih, Option.map_map, Option.map_map]
      rfl
    simp only [List.cons_append, untilClosed?]
    split
    · exact hinner (depth + 1)
    · split
      · cases depth with
        | zero => rfl
        | succ depth => exact hinner depth
      · exact hinner depth

/-- **Such a text is left over** behind a type, and makes no type of what is none. -/
theorem braced?_append_of_not_mem (htail : '}' ∉ tail) (cs : List Char) :
    braced? (cs ++ tail) = (braced? cs).map fun (inside, after) => (inside, after ++ tail) := by
  rcases cs with _ | ⟨c, cs⟩
  · -- the text alone does not start with a type
    have hnone : ¬(braced? tail).isSome = true := by
      rw [isSome_braced?_iff]
      rintro ⟨inside, after, rfl, -⟩
      exact htail (by simp)
    exact Option.not_isSome_iff_eq_none.mp hnone
  · rw [List.cons_append, braced?, braced?, untilClosed?_append_of_not_mem htail]
    split
    · rw [Option.map_map, Option.map_map]
      rfl
    · rfl

end ApiAnnotation
