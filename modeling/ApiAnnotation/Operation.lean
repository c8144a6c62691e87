import ApiAnnotation.SortedMap.Basic

/-!
# Operations and definitions

The parts of a Swagger 2.0 document that annotations give rise to: operations with their parameters
and responses, schema definitions with their properties, and tags.
-/

namespace ApiAnnotation

/-- A pointer to a named schema of the document. -/
structure SchemaRef where
  /-- The pointer, `#/definitions/…`. -/
  reference : String
deriving DecidableEq, Repr

/-- The pointer to the definition of a model. -/
def SchemaRef.toDefinition (model : String) : SchemaRef where
  reference := "#/definitions/" ++ model

/-- A tag by which operations are grouped. -/
structure Tag where
  /-- The name of the group. -/
  name : String
  /-- What the group is about. -/
  description : Option String := none
deriving DecidableEq, Repr

/-- The tag of an operation that names no group. -/
instance : Inhabited Tag := ⟨{ name := "default", description := some "" }⟩

/-- A parameter of an operation. -/
structure Parameter where
  /-- The name of the parameter. -/
  name : String
  /-- Where it is passed, such as `query` or `path`. -/
  location : String
  /-- What it means. -/
  description : String := ""
  /-- Whether it must be given. -/
  required : Bool := false
  /-- The name of its type. -/
  type : Option String := none
  /-- The schema its type points to. -/
  schema : Option SchemaRef := none
deriving DecidableEq, Repr

/-- What an operation answers under one status code. -/
structure Response where
  /-- What the answer means. -/
  description : Option String := none
  /-- The name of the type of its content. -/
  type : Option String := none
  /-- The schema that type points to. -/
  schema : Option SchemaRef := none
deriving DecidableEq, Repr

/-- Responses by status code. -/
abbrev Responses := SortedMap Response

/-- An operation: one method of one path. -/
structure Operation where
  /-- What the operation does. -/
  description : String := ""
  /-- The names of its tags. -/
  tags : List String := []
  /-- Its parameters. -/
  parameters : List Parameter := []
  /-- Its identifier. -/
  operationId : Option String := none
  /-- What it does, in short. -/
  summary : Option String := none
  /-- The media types it answers in. -/
  produces : Option (List String) := none
  /-- The media types it accepts. -/
  consumes : Option (List String) := none
  /-- Its responses. -/
  responses : Responses := ∅
deriving DecidableEq, Repr

instance : Inhabited Operation := ⟨{}⟩

/-- A property of a definition. -/
structure Property where
  /-- The name of its type. -/
  type : Option String := none
  /-- The schema its type points to. -/
  schema : Option SchemaRef := none
deriving DecidableEq, Repr

/-- A schema definition. -/
structure Definition where
  /-- The names of the properties that must be present. -/
  required : List String := []
  /-- The properties by name. -/
  properties : SortedMap Property := ∅
deriving DecidableEq, Repr

/-- Operations by method, by path. -/
abbrev Paths := SortedMap (SortedMap Operation)

/-- The operation of a method of a path. -/
def Paths.operation? (paths : Paths) (uri method : String) : Option Operation :=
  (paths.get? uri).bind (·.get? method)

/-- Replaces the operation of a method of a path by what `f` makes of it, or enters one. -/
def Paths.alter (paths : Paths) (uri method : String) (f : Option Operation → Operation) : Paths :=
  SortedMap.alter paths uri fun methods => (methods.getD ∅).alter method f

/-- Applies `f` to the operation of a method of a path, if there is one. -/
def Paths.modify (paths : Paths) (uri method : String) (f : Operation → Operation) : Paths :=
  SortedMap.modify paths uri fun methods => methods.modify method f

/-- Applies `f` to every operation. -/
def Paths.mapOperations (f : Operation → Operation) (paths : Paths) : Paths :=
  paths.map fun methods => methods.map f

/-- The number of operations of all paths. -/
def Paths.operationCount (paths : Paths) : Nat :=
  paths.values.foldr (fun methods count => methods.size + count) 0

/-- Schema definitions by the name of their type. -/
abbrev Definitions := SortedMap Definition

/-- What one annotation block contributes to a document. -/
structure Fragment where
  /-- Its operations. -/
  paths : Paths := ∅
  /-- Its tags. -/
  tags : List Tag := []
  /-- Its definitions. -/
  definitions : Definitions := ∅
deriving DecidableEq, Repr

namespace Fragment

instance : Inhabited Fragment := ⟨{}⟩

/-- Whether the fragment contributes nothing. -/
def isEmpty (f : Fragment) : Bool :=
  f.paths.isEmpty && f.tags.isEmpty && f.definitions.isEmpty

/-- The operation of a method of a path. -/
def operation? (f : Fragment) (uri method : String) : Option Operation :=
  f.paths.operation? uri method

end Fragment

end ApiAnnotation
