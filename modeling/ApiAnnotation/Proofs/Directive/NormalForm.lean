import ApiAnnotation.Directive.Parameter
import ApiAnnotation.Directive.Route
import ApiAnnotation.Proofs.Text.Lowercase
import ApiAnnotation.Proofs.Text.Parts

/-!
# Normal forms

Routes, the names of parameters and texts with a dash are read from any text: what is missing is
made up, and what is too much is dropped. So many texts say the same, and one of them says it
without anything missing or dropped: what is read can be written down, and the text that this gives
is read as the same again (`ApiAnnotation.Normalises`).

What can be read is in a normal form: no part holds the separator, and a part that is made up where
it is missing is not empty. A method is in lower case besides, which is a normal form only because
putting a text into lower case again changes nothing and no space comes in
(`ApiAnnotation.Text.toLower_toLower`). There are no more conditions: everything in the normal form
is read from some text.

## Main statements

* `ApiAnnotation.Route.normalises`, `ApiAnnotation.ParameterName.normalises`,
  `ApiAnnotation.normalises_dashParts`: each reader is a normalisation.
* `ApiAnnotation.normalises_routes_names_dashes`: all three.
-/

namespace ApiAnnotation

/-! ### Normalisations -/

/-- **A reader is a normalisation**, what it reads being written down in one way and being in a
normal form. -/
structure Normalises {α : Type} (read : String → α) (write : α → String) (Normal : α → Prop) :
    Prop where
  /-- What is read is in the normal form. -/
  normal (text : String) : Normal (read text)
  /-- What is read and written down is read as the same. -/
  read_write_read (text : String) : read (write (read text)) = read text
  /-- Whatever is in the normal form is read as it was written down. -/
  read_write (a : α) : Normal a → read (write a) = a

theorem Normalises.of_read_write {α : Type} {read : String → α} {write : α → String}
    {Normal : α → Prop} (hnormal : ∀ text, Normal (read text))
    (hwrite : ∀ a, Normal a → read (write a) = a) : Normalises read write Normal where
  normal := hnormal
  read_write_read text := hwrite _ (hnormal text)
  read_write := hwrite

/-! ### Texts put together from pieces -/

namespace Text

variable {sep : Char} {text : String}

/-- A text that is put together from pieces has these pieces. -/
theorem segments_eq {parts : List String}
    (htext : text.toList = [sep].intercalate (parts.map String.toList)) (hparts : parts ≠ [])
    (h : ∀ part ∈ parts, sep ∉ part.toList) : segments sep text = parts := by
  have hpieces : ∀ piece ∈ parts.map String.toList, sep ∉ piece := by
    intro piece hpiece
    obtain ⟨part, hpart, rfl⟩ := List.mem_map.mp hpiece
    exact h part hpart
  rw [segments, htext, List.splitOn_intercalate sep hpieces (by simpa using hparts), List.map_map]
  simp [Function.comp_def]

end Text

open Text

/-! ### Routes -/

namespace Route

/-- The text of a route. -/
def toText (route : Route) : String := route.method ++ " " ++ route.uri

/-- **Routes that can be read.** -/
structure Normal (route : Route) : Prop where
  /-- There is a method. -/
  method_ne : route.method ≠ ""
  /-- It is in lower case. -/
  method_lower : toLower route.method.toList = route.method.toList
  /-- The method has no space. -/
  method_space : ' ' ∉ route.method.toList
  /-- Nor has the path. -/
  uri_space : ' ' ∉ route.uri.toList

/-- **What is read of a text**: its first two parts, the first of which is the method. -/
theorem ofText_eq (text : String) :
    ofText text =
      let method := String.ofList (toLower (firstPart ' ' text).toList)
      { method := if method = "" then defaultMethod else method
        uri := (secondPart? ' ' text).getD "" } := by
  obtain ⟨rest, hsegments, hrest⟩ := segments_eq_cons ' ' text
  rw [ofText, hsegments, ← hrest, List.head?_eq_getElem?]
  rfl

/-- The method that is made up is in the normal form. -/
theorem normal_defaultMethod {uri : String} (huri : ' ' ∉ uri.toList) :
    Normal { method := defaultMethod, uri } where
  method_ne := (by decide : defaultMethod ≠ "")
  method_lower := (by decide +kernel : toLower defaultMethod.toList = defaultMethod.toList)
  method_space := (by decide : ' ' ∉ defaultMethod.toList)
  uri_space := huri

theorem normal_ofText (text : String) : (ofText text).Normal := by
  have huri : ' ' ∉ ((secondPart? ' ' text).getD "").toList := by
    rcases hsecond : secondPart? ' ' text with _ | uri
    · exact List.not_mem_nil
    · exact not_mem_of_mem_segments (mem_segments_of_secondPart? hsecond)
  rw [ofText_eq]
  by_cases hmethod : String.ofList (toLower (firstPart ' ' text).toList) = ""
  · simp only [if_pos hmethod]
    exact normal_defaultMethod huri
  · simp only [if_neg hmethod]
    refine ⟨hmethod, ?_, ?_, huri⟩
    · rw [String.toList_ofList, toLower_toLower]
    · rw [String.toList_ofList, mem_toLower_iff_of_isBlank (by decide)]
      exact not_mem_of_mem_segments (firstPart_mem_segments ' ' text)

/-- **A route in the normal form is read as it was written down.** -/
theorem ofText_toText {route : Route} (h : route.Normal) : ofText route.toText = route := by
  have hsegments : segments ' ' route.toText = [route.method, route.uri] := by
    refine segments_eq (by simp [toText, List.intercalate]) (List.cons_ne_nil _ _) ?_
    simpa using ⟨h.method_space, h.uri_space⟩
  rw [ofText, hsegments]
  simp [h.method_lower, h.method_ne]

theorem normalises : Normalises ofText toText Normal :=
  .of_read_write normal_ofText fun _ => ofText_toText

end Route

/-! ### Names of parameters -/

namespace ParameterName

/-- The text of the name of a parameter. -/
def toText (name : ParameterName) : String :=
  name.name ++ "." ++ name.location ++ if name.required then "." ++ requiredMarker else ""

/-- **Names of parameters that can be read.** -/
structure Normal (name : ParameterName) : Prop where
  /-- There is a location. -/
  location_ne : name.location ≠ ""
  /-- The name proper has no dot. -/
  name_dot : '.' ∉ name.name.toList
  /-- Nor has the location. -/
  location_dot : '.' ∉ name.location.toList

theorem normal_ofText (text : String) : (ofText text).Normal := by
  have hpiece : ∀ i : Nat, '.' ∉ ((segments '.' text)[i]?.getD "").toList := by
    intro i
    rcases hi : (segments '.' text)[i]? with _ | piece
    · exact List.not_mem_nil
    · exact not_mem_of_mem_segments (List.mem_of_getElem? hi)
  have hname : '.' ∉ ((segments '.' text).headD "").toList := by
    rw [List.headD_eq_head?_getD, List.head?_eq_getElem?]
    exact hpiece 0
  rw [ofText]
  by_cases hlocation : (segments '.' text)[1]?.getD "" = ""
  · have hdefault : defaultLocation ≠ "" ∧ '.' ∉ defaultLocation.toList := by decide
    simp only [if_pos hlocation]
    exact ⟨hdefault.1, hname, hdefault.2⟩
  · simp only [if_neg hlocation]
    exact ⟨hlocation, hname, hpiece 1⟩

/-- **A name in the normal form is read as it was written down.** -/
theorem ofText_toText {name : ParameterName} (h : name.Normal) : ofText name.toText = name := by
  obtain ⟨proper, location, required⟩ := name
  have hsegments : segments '.' (toText ⟨proper, location, required⟩) =
      proper :: location :: if required then [requiredMarker] else [] := by
    cases required with
    | false =>
      refine segments_eq (by simp [toText, List.intercalate]) (List.cons_ne_nil _ _) ?_
      simpa using ⟨h.name_dot, h.location_dot⟩
    | true =>
      refine segments_eq (by simp [toText, List.intercalate]) (List.cons_ne_nil _ _) ?_
      simpa using ⟨h.name_dot, h.location_dot, by decide⟩
  rw [ofText, hsegments]
  cases required <;> simp [h.location_ne]

theorem normalises : Normalises ofText toText Normal :=
  .of_read_write normal_ofText fun _ => ofText_toText

end ParameterName

/-! ### Texts with a dash -/

/-- Two parts with a dash between them, or the first one alone. -/
def dashText : String × Option String → String
  | (first, none) => first
  | (first, some second) => first ++ "-" ++ second

/-- Whether two parts have no dash. -/
def DashFree (parts : String × Option String) : Prop :=
  '-' ∉ parts.1.toList ∧ ∀ second ∈ parts.2, '-' ∉ second.toList

theorem dashFree_dashParts (text : String) : DashFree (dashParts text) := by
  rw [dashParts_eq]
  exact ⟨not_mem_of_mem_segments (firstPart_mem_segments '-' text),
    fun second hsecond => not_mem_of_mem_segments (mem_segments_of_secondPart? hsecond)⟩

/-- **Parts without a dash are read as they were written down.** -/
theorem dashParts_dashText {parts : String × Option String} (h : DashFree parts) :
    dashParts (dashText parts) = parts := by
  obtain ⟨first, second⟩ := parts
  obtain ⟨hfirst, hsecond⟩ := h
  have hsegments : segments '-' (dashText (first, second)) = first :: second.toList := by
    cases second with
    | none => exact segments_eq (by simp [dashText]) (List.cons_ne_nil _ _) (by simpa using hfirst)
    | some second =>
      refine segments_eq (by simp [dashText, List.intercalate]) (List.cons_ne_nil _ _) ?_
      simpa using ⟨hfirst, hsecond second rfl⟩
  rw [dashParts, hsegments]
  cases second <;> rfl

theorem normalises_dashParts : Normalises dashParts dashText DashFree :=
  .of_read_write dashFree_dashParts fun _ => dashParts_dashText

/-! ### All of them -/

/-- **Routes, names of parameters and texts with a dash are normalised by reading them.** -/
theorem normalises_routes_names_dashes :
    Normalises Route.ofText Route.toText Route.Normal ∧
      Normalises ParameterName.ofText ParameterName.toText ParameterName.Normal ∧
      Normalises dashParts dashText DashFree :=
  ⟨Route.normalises, ParameterName.normalises, normalises_dashParts⟩

/-- A method that ends in a final sigma and holds a capital with two small letters, a name of which
only the dots and the marker are given, and a text that starts with a dash. -/
theorem normalises_routes_names_dashes_odd :
    let route : Route := ⟨"\u0069\u0307\u03bf\u03c2", "/\u03a3"⟩
    let name : ParameterName := ⟨"", "get", true⟩
    (Route.ofText "\u0130\u039f\u03a3 /\u03a3 x" = route ∧ Route.ofText route.toText = route) ∧
      (ParameterName.ofText "..required.x" = name ∧ ParameterName.ofText name.toText = name) ∧
      dashParts (dashText ("", some "")) = ("", some "") := by
  intro route name
  have hroute : Route.ofText "\u0130\u039f\u03a3 /\u03a3 x" = route := by decide +kernel
  have hname : ParameterName.ofText "..required.x" = name := by decide +kernel
  obtain ⟨hroutes, hnames, hdashes⟩ := normalises_routes_names_dashes
  refine ⟨⟨hroute, ?_⟩, ⟨hname, ?_⟩, hdashes.read_write _ ⟨by decide, by decide⟩⟩
  · exact hroutes.read_write route (hroute ▸ hroutes.normal _)
  · exact hnames.read_write name (hname ▸ hnames.normal _)

end ApiAnnotation
