import ApiAnnotation.Directive
import ApiAnnotation.Operation
import ApiAnnotation.Text.Trim

/-!
# Reading types

The type at a directive names a primitive type as it stands, or a model of the document: the
dotted name `Pet.model` refers to the definition `Pet`. A type without a usable name stands for a
string.
-/

namespace ApiAnnotation

/-- What the type at a directive refers to. -/
inductive TypeReference where
  /-- No type was written. -/
  | absent
  /-- A type without a usable name. -/
  | unnamed
  /-- A plain name, taken as it stands. -/
  | primitive (name : String)
  /-- A model of the document. -/
  | model (name : String)
deriving DecidableEq, Repr

namespace TypeReference

/-- The second segment of a dotted name that makes it refer to a model. -/
def modelMarker : String := "model"

/-- What a name refers to. -/
def ofName (name : String) : TypeReference :=
  match Text.segments '.' name with
  | base :: second :: _ => if second = modelMarker then .model base else .primitive name
  | _ => .primitive name

/-- What the type at a directive refers to. -/
def ofType : Option TypeExpr → TypeReference
  | none => .absent
  | some t => match t.usableName? with
    | none => .unnamed
    | some name => ofName name

/-- The type name written into the document. -/
def typeName? : TypeReference → Option String
  | absent => none
  | unnamed => some "string"
  | primitive name => some name
  | model name => some name

/-- The schema written into the document. -/
def schema? : TypeReference → Option SchemaRef
  | model name => some (.toDefinition name)
  | _ => none

end TypeReference

end ApiAnnotation
