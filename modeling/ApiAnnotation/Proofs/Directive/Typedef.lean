import ApiAnnotation.Proofs.Entries
import ApiAnnotation.Proofs.Text.Parts
import ApiAnnotation.Directive.Typedef

/-!
# What a typedef describes

The directives of a typedef are taken one after the other, and each `@property` enters a name into
the map of the properties and maybe into the list of the required ones. Names that are written
differently may be the same there: `id.required` and `id.required.x` enter the property `id`, while
`id.optional` enters one of its own. The name that counts is
`ApiAnnotation.Directive.effectiveName`.

`ApiAnnotation.Typedef.Describes` reads the result off the whole list: the map has the last property
of each name, and the list has all the names that are marked as required, in their order. A name
that is marked twice is listed twice.

## Main statements

* `ApiAnnotation.Typedef.definition_eq`: the map and the list that `@property` directives make.
* `ApiAnnotation.Typedef.describes_ofDirectives?`: what is read of any directives.
-/

namespace ApiAnnotation

namespace Directive

/-- **Whether a directive marks its property as required**: the second part of its name says so. -/
def IsMarked (d : Directive) : Prop := Text.secondPart? '.' d.name = some "required"

instance (d : Directive) : Decidable d.IsMarked :=
  inferInstanceAs (Decidable (Text.secondPart? '.' d.name = some "required"))

/-- **The name of the property that a directive describes**: the first part of the directive's own
name if that marks the property as required, and otherwise the whole of it. -/
def effectiveName (d : Directive) : String :=
  if d.IsMarked then Text.firstPart '.' d.name else d.name

/-- What is read of the name of a property. -/
theorem propertyName_eq (d : Directive) :
    d.propertyName = (d.effectiveName, decide d.IsMarked) := by
  obtain ⟨rest, hsegments, hrest⟩ := Text.segments_eq_cons '.' d.name
  have hmarked : d.IsMarked ↔ rest.head? = some "required" := by
    rw [hrest]
    exact Iff.rfl
  rw [propertyName, hsegments, effectiveName]
  rcases rest with _ | ⟨second, rest⟩
  · simp [hmarked]
  · by_cases hsecond : second = "required" <;> simp [requiredMarker, hmarked, hsecond]

/-- The directives that describe properties. -/
def properties (ds : List Directive) : List Directive := ds.filter (·.title = "property")

/-- The last directive that describes the property of a name. -/
def lastProperty? (name : String) (ds : List Directive) : Option Directive :=
  ((properties ds).filter (·.effectiveName = name)).getLast?

/-- The names of the properties that are marked as required, one for each mark. -/
def requiredNames (ds : List Directive) : List String :=
  ((properties ds).filter (·.IsMarked)).map (·.effectiveName)

theorem mem_properties {d : Directive} {ds : List Directive} :
    d ∈ properties ds ↔ d ∈ ds ∧ d.title = "property" := by
  rw [properties, List.mem_filter, decide_eq_true_eq]

end Directive

namespace Typedef

open Directive (lastProperty? requiredNames)

/-- **A typedef as its directives describe it**, `head` being the first of them. -/
structure Describes (typedef : Typedef) (head : Directive) (rest : List Directive) : Prop where
  /-- The first directive names the type. -/
  typeName : typedef.typeName = head.name
  /-- The properties are those that the `@property` directives after it name. -/
  mem_keys : ∀ name, name ∈ typedef.definition.properties.keys ↔
    ∃ d ∈ rest, d.title = "property" ∧ d.effectiveName = name
  /-- Each has the type and the schema of the last directive of its name. -/
  get? : ∀ name, typedef.definition.properties.get? name = (lastProperty? name rest).map fun d =>
    { type := (TypeReference.ofType d.type).typeName?
      schema := (TypeReference.ofType d.type).schema? }
  /-- The required properties are those that are marked, in their order and with repeats. -/
  required : typedef.definition.required = requiredNames rest
  /-- They are properties. -/
  required_subset : typedef.definition.required ⊆ typedef.definition.properties.keys

variable {typedef typedef' : Typedef} {head : Directive} {rest ds : List Directive}

/-- There is only one typedef like that. -/
theorem Describes.unique (h : typedef.Describes head rest) (h' : typedef'.Describes head rest) :
    typedef = typedef' := by
  obtain ⟨typeName, required, properties⟩ := typedef
  obtain ⟨typeName', required', properties'⟩ := typedef'
  obtain rfl : typeName = typeName' := h.typeName.trans h'.typeName.symm
  obtain rfl : required = required' := h.required.trans h'.required.symm
  obtain rfl : properties = properties' :=
    SortedMap.ext_get? fun name => (h.get? name).trans (h'.get? name).symm
  rfl

/-- **What `@property` directives make**: a map with the last property of each name, and the list of
the names that are marked as required. -/
theorem definition_eq (ds : List Directive) :
    ds.foldl Definition.enter {} =
      { required := (ds.filter (·.IsMarked)).map (·.effectiveName)
        properties := .ofList (ds.map fun d => (d.effectiveName, Property.ofDirective d)) } := by
  -- a fold from the left grows at the end of the list
  induction ds using List.reverseRecOn with
  | nil => rfl
  | append_singleton ds d ih =>
    rw [List.foldl_append, ih, List.foldl_cons, List.foldl_nil, Definition.enter,
      Directive.propertyName_eq, List.map_append, List.map_singleton, SortedMap.ofList_concat,
      List.filter_append, List.map_append]
    by_cases hmarked : d.IsMarked <;> simp [hmarked]

/-- What is read where the type has a name. -/
theorem ofDirectives?_cons (hname : head.name ≠ "") :
    ofDirectives? (head :: rest) = some
      { typeName := head.name
        definition :=
          { required := requiredNames rest
            properties := .ofList ((Directive.properties rest).map fun d =>
              (d.effectiveName, Property.ofDirective d)) } } := by
  rw [ofDirectives?, if_neg hname, definition_eq]
  rfl

/-- Something is read only then. -/
theorem name_ne_empty_of_ofDirectives? (h : ofDirectives? (head :: rest) = some typedef) :
    head.name ≠ "" :=
  fun hname => Option.some_ne_none typedef (h.symm.trans (if_pos hname))

/-- It is what the directives describe. -/
theorem describes_of_ofDirectives? (h : ofDirectives? (head :: rest) = some typedef) :
    typedef.Describes head rest := by
  rw [ofDirectives?_cons (name_ne_empty_of_ofDirectives? h)] at h
  obtain rfl := Option.some.inj h
  refine ⟨rfl, fun name => ?_, fun name => SortedMap.get?_ofList_map _ _ name _, rfl,
    fun name hmem => SortedMap.mem_keys_ofList_map.mpr ?_⟩
  · rw [SortedMap.mem_keys_ofList_map]
    simp only [Directive.mem_properties, and_assoc]
  · obtain ⟨d, hd, hd'⟩ := List.mem_map.mp hmem
    exact ⟨d, (List.mem_filter.mp hd).1, hd'⟩

/-- **What is read of any directives.** Nothing is read if there are none or the first of them has
no name; otherwise it is the typedef that they describe, and no other. Directives after the first
that are no `@property` make no difference. -/
theorem describes_ofDirectives? (ds : List Directive) :
    (ofDirectives? ds = none ↔ ds = [] ∨ ∃ d ∈ ds.head?, d.name = "") ∧
      (∀ typedef, ofDirectives? ds = some typedef ↔
        ∃ head rest, ds = head :: rest ∧ head.name ≠ "" ∧ typedef.Describes head rest) ∧
      ofDirectives? (ds.take 1 ++ (ds.drop 1).filter (·.title = "property")) =
        ofDirectives? ds := by
  rcases ds with _ | ⟨head, rest⟩
  · simp [ofDirectives?]
  refine ⟨?_, fun typedef => ⟨fun h => ?_, ?_⟩, ?_⟩
  · by_cases hname : head.name = "" <;> simp [ofDirectives?, hname]
  · exact ⟨head, rest, rfl, name_ne_empty_of_ofDirectives? h, describes_of_ofDirectives? h⟩
  · rintro ⟨_, _, hds, hname, hdescribes⟩
    obtain ⟨rfl, rfl⟩ := List.cons.inj hds
    have htypedef : ofDirectives? (head :: rest) = some _ := ofDirectives?_cons hname
    rw [htypedef, (describes_of_ofDirectives? htypedef).unique hdescribes]
  · show ofDirectives? (head :: rest.filter _) = _
    rw [ofDirectives?, ofDirectives?, List.filter_filter]
    simp

/-- Names that fall together and names that do not. -/
example : (ofDirectives? [
      { title := "typedef", name := "Order" },
      { title := "property", name := "id.required" },
      { title := "property", name := "id" },
      { title := "property", name := "id.required.x" },
      { title := "property", name := "id.optional" }]).map (fun typedef =>
        (typedef.definition.required, typedef.definition.properties.keys)) =
    some (["id", "id"], ["id", "id.optional"]) := by
  decide +kernel

end Typedef

end ApiAnnotation
