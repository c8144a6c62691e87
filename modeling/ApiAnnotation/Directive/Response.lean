import ApiAnnotation.Directive.Group
import ApiAnnotation.TypeReference

/-!
# Responses

A `@returns` directive reads `code-description`. The last one of a block decides what is said about
its status code.
-/

namespace ApiAnnotation

/-- Whether a directive describes a response. -/
def Directive.isReturns (d : Directive) : Bool := d.title = "returns" || d.title = "return"

/-- The status code and the response that a `@returns` directive describes. -/
def Response.ofDirective (d : Directive) : String × Response :=
  let (code, description) := dashParts d.description
  let type := TypeReference.ofType d.type
  (code, { description, type := type.typeName?, schema := type.schema? })

/-- The responses that the directives of a block describe. -/
def Responses.ofDirectives (directives : List Directive) : Responses :=
  .ofList ((directives.filter (·.isReturns)).map Response.ofDirective)

end ApiAnnotation
