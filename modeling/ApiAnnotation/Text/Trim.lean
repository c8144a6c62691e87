import ApiAnnotation.Text.Blank

/-!
# Trimming and cutting text

Texts are taken apart as lists of characters. The operations here remove white space at the ends,
remove a given text in front, and cut at the first occurrence of a text.
-/

namespace ApiAnnotation.Text

/-- The text without the white space in front. -/
def trimStart (cs : List Char) : List Char := cs.dropWhile isBlank

/-- The text without the white space at its end. -/
def trimEnd (cs : List Char) : List Char := (cs.reverse.dropWhile isBlank).reverse

/-- The text without the white space at either end. -/
def trim (cs : List Char) : List Char := trimEnd (trimStart cs)

/-- The text without one leading `c`, if it starts with one. -/
def dropLeading (c : Char) : List Char → List Char
  | [] => []
  | d :: cs => if d = c then cs else d :: cs

/-- Cuts `cs` at the first occurrence of `mark`: the text before it and the text after it, or
`none` where `mark` does not occur. -/
def cutAt? (mark : List Char) : List Char → Option (List Char × List Char)
  | [] => if mark = [] then some ([], []) else none
  | c :: cs =>
    if mark.isPrefixOf (c :: cs) then some ([], (c :: cs).drop mark.length)
    else (cutAt? mark cs).map fun (before, after) => (c :: before, after)

/-- The pieces of a text between the occurrences of `sep`: one more than there are occurrences. -/
def segments (sep : Char) (text : String) : List String :=
  (text.toList.splitOn sep).map String.ofList

/-! ### What a cut keeps -/

/-- A cut loses nothing: the two sides joined by the mark are the text. -/
theorem eq_append_of_cutAt? {mark cs before after : List Char}
    (h : cutAt? mark cs = some (before, after)) : cs = before ++ mark ++ after := by
  induction cs generalizing before after with
  | nil =>
    simp only [cutAt?] at h
    split at h <;> simp_all
  | cons c cs ih =>
    simp only [cutAt?] at h
    split at h
    · next hp =>
      obtain ⟨t, ht⟩ := List.isPrefixOf_iff_prefix.1 hp
      simp only [Option.some.injEq, Prod.mk.injEq] at h
      obtain ⟨rfl, rfl⟩ := h
      simp [← ht]
    · obtain ⟨⟨b, a⟩, hb, hab⟩ := Option.map_eq_some_iff.1 h
      simp only [Prod.mk.injEq] at hab
      obtain ⟨rfl, rfl⟩ := hab
      simp [ih hb]

end ApiAnnotation.Text
