import ApiAnnotation.Directive.Parameter

/-!
# Typedefs

A block that starts with `@typedef` defines a schema. Its first directive names the schema, and the
`@property` directives after it are the properties; a property called `name.required` is entered
under `name` and must be present.
-/

namespace ApiAnnotation

/-- A definition together with the name of the type it defines. -/
structure Typedef where
  /-- The name of the type. -/
  typeName : String
  /-- The definition. -/
  definition : Definition
deriving DecidableEq, Repr

/-- The name that a `@property` directive enters, and whether it marks it as required. -/
def Directive.propertyName (d : Directive) : String × Bool :=
  match Text.segments '.' d.name with
  | base :: second :: _ => if second = requiredMarker then (base, true) else (d.name, false)
  | _ => (d.name, false)

/-- The property that a directive describes. -/
def Property.ofDirective (d : Directive) : Property :=
  let type := TypeReference.ofType d.type
  { type := type.typeName?, schema := type.schema? }

/-- Enters the property that a directive describes. -/
def Definition.enter (definition : Definition) (d : Directive) : Definition :=
  let (name, required) := d.propertyName
  { required := if required then definition.required ++ [name] else definition.required
    properties := definition.properties.insert name (Property.ofDirective d) }

/-- The typedef that the directives of a block describe, or `none` where the first of them does not
name a type. -/
def Typedef.ofDirectives? : List Directive → Option Typedef
  | [] => none
  | head :: rest =>
    if head.name = "" then none
    else some
      { typeName := head.name
        definition := (rest.filter (·.title = "property")).foldl Definition.enter {} }

end ApiAnnotation
