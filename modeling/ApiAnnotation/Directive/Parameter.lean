import ApiAnnotation.TypeReference

/-!
# Parameters

The name at a `@param` directive packs three things, separated by dots: the name proper, the
location where the parameter is passed, and the word `required`.
-/

namespace ApiAnnotation

/-- The third segment of a parameter's name, or the second of a property's, that makes it
required. -/
def requiredMarker : String := "required"

/-- What the name at a `@param` directive says. -/
structure ParameterName where
  /-- The name proper. -/
  name : String
  /-- Where the parameter is passed. -/
  location : String
  /-- Whether it must be given. -/
  required : Bool
deriving DecidableEq, Repr

/-- The location of a parameter that names none. -/
def ParameterName.defaultLocation : String := "get"

/-- Reads the name at a `@param` directive. -/
def ParameterName.ofText (text : String) : ParameterName :=
  let segments := Text.segments '.' text
  let location := segments[1]?.getD ""
  { name := segments.headD ""
    location := if location = "" then defaultLocation else location
    required := segments[2]? = some requiredMarker }

/-- The parameter that a `@param` directive describes. -/
def Parameter.ofDirective (d : Directive) : Parameter :=
  let name := ParameterName.ofText d.name
  let type := TypeReference.ofType d.type
  { name := name.name
    location := name.location
    description := d.description
    required := name.required
    type := type.typeName?
    schema := type.schema? }

end ApiAnnotation
