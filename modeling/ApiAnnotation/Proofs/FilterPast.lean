import Mathlib.Data.List.Induction

/-!
# Selecting by what stands before

Directives and tags are often told apart by what precedes them: a tag counts if no earlier one has
its name, a detail belongs to the route opened last. `ApiAnnotation.filterPast` selects the items of
a list by the items in front of them; `ApiAnnotation.filterPast_concat` says what one more item
does, which is the shape in which a fold over the list asks for it.
-/

namespace ApiAnnotation

universe u

variable {α : Type u}

/-- The items of a list that the items in front of them let pass: `p past a` decides about the
item `a` that stands just after `past`. -/
def filterPast (p : List α → α → Bool) (l : List α) : List α :=
  (l.zipIdx.filter fun (a, i) => p (l.take i) a).map (·.1)

@[simp] theorem filterPast_nil (p : List α → α → Bool) : filterPast p [] = [] := rfl

/-- One more item changes nothing about those before it. -/
theorem filterPast_concat (p : List α → α → Bool) (l : List α) (a : α) :
    filterPast p (l ++ [a]) = filterPast p l ++ (if p l a then [a] else []) := by
  -- the items before an index are those of `l`, whatever is added behind
  have hsame : l.zipIdx.filter (fun (b, i) => p ((l ++ [a]).take i) b) =
      l.zipIdx.filter fun (b, i) => p (l.take i) b := by
    refine List.filter_congr fun ⟨b, i⟩ hmem => ?_
    have hi : i < l.length := (List.mem_zipIdx' hmem).1
    exact congrArg (p · b) (List.take_append_of_le_length (Nat.le_of_lt hi))
  have hlast : (l ++ [a]).take l.length = l := by
    rw [List.take_append_of_le_length (Nat.le_refl _), List.take_length]
  rw [filterPast, List.zipIdx_append, List.filter_append, hsame, List.map_append]
  by_cases hp : p l a <;> simp [filterPast, hlast, hp]

/-- What is selected was there. -/
theorem mem_of_mem_filterPast {p : List α → α → Bool} {l : List α} {a : α}
    (h : a ∈ filterPast p l) : ∃ past rest, l = past ++ a :: rest ∧ p past a := by
  induction l using List.reverseRecOn with
  | nil => simp at h
  | append_singleton l b ih =>
    rw [filterPast_concat, List.mem_append] at h
    rcases h with h | h
    · obtain ⟨past, rest, rfl, hp⟩ := ih h
      exact ⟨past, rest ++ [b], by simp, hp⟩
    · by_cases hp : p l b
      · rw [if_pos hp, List.mem_singleton] at h
        exact ⟨l, [], by rw [h], by rw [h]; exact hp⟩
      · rw [if_neg hp] at h
        exact absurd h List.not_mem_nil

end ApiAnnotation
