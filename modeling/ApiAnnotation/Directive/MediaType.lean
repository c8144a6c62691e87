import ApiAnnotation.Text.Blank

/-!
# Lists of media types

The text of a `@produces` or `@consumes` directive lists media types separated by white space. A run
of white space is one separator, and one at an end of the text leaves an empty entry there.
-/

namespace ApiAnnotation

/-- The pieces of a text between its runs of white space. -/
def splitBlanks (cs : List Char) : List (List Char) :=
  let piece := cs.takeWhile (!isBlank ·)
  match _h : cs.dropWhile (!isBlank ·) with
  | [] => [piece]
  | _ :: rest => piece :: splitBlanks (rest.dropWhile isBlank)
termination_by cs.length
decreasing_by
  have h₁ := (List.dropWhile_sublist isBlank (l := rest)).length_le
  have h₂ := (List.dropWhile_sublist (fun c => !isBlank c) (l := cs)).length_le
  rw [_h, List.length_cons] at h₂
  omega

/-- The media types listed in a text. -/
def mediaTypes (text : String) : List String :=
  (splitBlanks text.toList).map String.ofList

end ApiAnnotation
