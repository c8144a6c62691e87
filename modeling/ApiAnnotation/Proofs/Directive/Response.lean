import ApiAnnotation.Proofs.Entries
import ApiAnnotation.Proofs.Text.Parts
import ApiAnnotation.Directive.Response

/-!
# What returns describe

The directives that describe responses make a map, in which a status code that is described again
gets a new entry and nothing is left of the old one. So an entry is read off one directive, the last
one of its code (`ApiAnnotation.Responses.Describe`), and of two lists in a row the second decides
wherever it says anything.

The code and the description are cut at the dashes and at nothing else. They keep the spaces around
a dash, so `200 - OK` and `200-OK` have different codes.

## Main statements

* `ApiAnnotation.TypeReference.typeName?_ofType_eq_none_iff`: a type that is written has a name.
* `ApiAnnotation.Responses.eq_ofDirectives_iff_and_get?_append`: the responses of any directives,
  and those of two lists in a row.
-/

namespace ApiAnnotation

/-- Every type that is written has a name, if only that of a string. -/
theorem TypeReference.typeName?_ofType_eq_none_iff (type : Option TypeExpr) :
    (ofType type).typeName? = none ↔ type = none := by
  cases type with
  | none => simp [ofType, typeName?]
  | some t =>
    rw [ofType]
    cases t.usableName? with
    | none => simp [typeName?]
    | some name =>
      simp only [ofName]
      split
      · split <;> simp [typeName?]
      · simp [typeName?]

namespace Directive

/-- The directives that describe responses. -/
def returns (ds : List Directive) : List Directive :=
  ds.filter fun d => d.title = "returns" ∨ d.title = "return"

/-- The status code under which a directive describes a response. -/
def statusCode (d : Directive) : String := Text.firstPart '-' d.description

/-- **The response that a directive describes**: the description is the second part of the
directive's own, and the type and the schema are those of its type. -/
def response (d : Directive) : Response where
  description := Text.secondPart? '-' d.description
  type := (TypeReference.ofType d.type).typeName?
  schema := (TypeReference.ofType d.type).schema?

/-- The last directive that describes the response under a code. -/
def lastReturns? (code : String) (ds : List Directive) : Option Directive :=
  ((returns ds).filter (·.statusCode = code)).getLast?

theorem mem_returns {d : Directive} {ds : List Directive} :
    d ∈ returns ds ↔ d ∈ ds ∧ (d.title = "returns" ∨ d.title = "return") := by
  rw [returns, List.mem_filter, decide_eq_true_eq]

end Directive

namespace Responses

open Directive (lastReturns?)

/-- **Responses as directives describe them.** -/
structure Describe (responses : Responses) (ds : List Directive) : Prop where
  /-- The codes are the first parts of the descriptions. -/
  mem_keys : ∀ code, code ∈ SortedMap.keys responses ↔
    ∃ d ∈ ds, (d.title = "returns" ∨ d.title = "return") ∧ d.statusCode = code
  /-- Each response is read off the last directive of its code. -/
  get? : ∀ code, SortedMap.get? responses code = (lastReturns? code ds).map (·.response)
  /-- It has a type exactly if this directive does. -/
  type_eq_none_iff : ∀ code r d, SortedMap.get? responses code = some r →
    lastReturns? code ds = some d → (r.type = none ↔ d.type = none)

variable {responses responses' : Responses} {ds : List Directive}

/-- There are no other responses like that. -/
theorem Describe.unique (h : responses.Describe ds) (h' : responses'.Describe ds) :
    responses = responses' :=
  SortedMap.ext_get? fun code => (h.get? code).trans (h'.get? code).symm

/-- The responses are a map that is made of the directives. -/
theorem ofDirectives_eq (ds : List Directive) :
    ofDirectives ds =
      SortedMap.ofList ((Directive.returns ds).map fun d => (d.statusCode, d.response)) := by
  have hreturns : ds.filter (·.isReturns) = Directive.returns ds :=
    List.filter_congr fun d _ => by simp [Directive.isReturns]
  rw [ofDirectives, hreturns]
  refine congrArg _ (List.map_congr_left fun d _ => ?_)
  rw [Response.ofDirective, dashParts_eq]
  rfl

theorem get?_ofDirectives (code : String) (ds : List Directive) :
    SortedMap.get? (ofDirectives ds) code = (lastReturns? code ds).map (·.response) := by
  rw [ofDirectives_eq, SortedMap.get?_ofList_map]
  rfl

theorem describe_ofDirectives (ds : List Directive) : (ofDirectives ds).Describe ds where
  mem_keys code := by
    rw [ofDirectives_eq, SortedMap.mem_keys_ofList_map]
    simp only [Directive.mem_returns, and_assoc]
  get? code := get?_ofDirectives code ds
  type_eq_none_iff code r d hr hd := by
    rw [get?_ofDirectives, hd] at hr
    obtain rfl := Option.some.inj hr
    exact TypeReference.typeName?_ofType_eq_none_iff d.type

/-- **The responses of any directives** are those that they describe, and no others. Of two lists in
a row the second decides about every code that it describes, and the first about the others. -/
theorem eq_ofDirectives_iff_and_get?_append (ds more : List Directive) :
    (∀ responses, responses = ofDirectives ds ↔ responses.Describe ds) ∧
      ∀ code, SortedMap.get? (ofDirectives (ds ++ more)) code =
        (SortedMap.get? (ofDirectives more) code).or (SortedMap.get? (ofDirectives ds) code) := by
  refine ⟨fun responses => ⟨?_, fun h => h.unique (describe_ofDirectives ds)⟩, fun code => ?_⟩
  · rintro rfl
    exact describe_ofDirectives ds
  · rw [← SortedMap.get?_union, ofDirectives, List.filter_append, List.map_append,
      SortedMap.ofList_append]
    rfl

/-- The code ends at the dash, with the space before it. -/
example : SortedMap.keys (ofDirectives [
      { title := "returns", description := "200 - OK" },
      { title := "return", description := "200-OK-here" },
      { title := "returns", description := "200" }]) = ["200", "200 "] := by
  decide +kernel

end Responses

end ApiAnnotation
