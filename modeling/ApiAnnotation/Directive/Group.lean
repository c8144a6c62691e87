import ApiAnnotation.Directive
import ApiAnnotation.Operation
import ApiAnnotation.Text.Trim

/-!
# Groups

A `@group` directive reads `name-description`. Both parts are kept as written, spaces included, and
what follows a second dash is dropped. Only the first one of a block counts.
-/

namespace ApiAnnotation

/-- The parts of a text before and after its first dash, the second one ending at the next dash. -/
def dashParts (text : String) : String × Option String :=
  let parts := Text.segments '-' text
  (parts.headD "", parts[1]?)

/-- Reads the text of a `@group` directive. -/
def Tag.ofText (text : String) : Tag :=
  let (name, description) := dashParts text
  { name, description }

/-- The tag of the operations of a block: that of its first `@group` directive. -/
def Tag.ofDirectives (directives : List Directive) : Tag :=
  match directives.find? (·.title = "group") with
  | some d => Tag.ofText d.description
  | none => default

end ApiAnnotation
