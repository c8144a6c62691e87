import ApiAnnotation.Text.Lowercase
import ApiAnnotation.Text.Trim

/-!
# Routes

A `@route` directive reads `METHOD uri`. The two are separated by one space, so a second space
leaves the path empty, and whatever follows the path is dropped.
-/

namespace ApiAnnotation

/-- A method of a path. -/
structure Route where
  /-- The method, in lower case. -/
  method : String
  /-- The path. -/
  uri : String
deriving DecidableEq, Repr

/-- The method of a route that names none. -/
def Route.defaultMethod : String := "get"

/-- Reads the text of a `@route` directive. -/
def Route.ofText (text : String) : Route :=
  let words := Text.segments ' ' text
  let method := String.ofList (Text.toLower (words.headD "").toList)
  { method := if method = "" then defaultMethod else method
    uri := words[1]?.getD "" }

end ApiAnnotation
