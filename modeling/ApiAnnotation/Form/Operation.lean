import ApiAnnotation.Operation
import ApiAnnotation.Readable

/-!
# The JSON form of operations and definitions

Every record is written with its fields in a fixed order. Fields that may be absent are left out
when they are; they may also be given as `null`. All other fields but those that name the record
have a default.
-/

namespace ApiAnnotation

variable {m : Type → Type} [Monad m] [MonadExcept Fault m] {ν : Type} [Readable ν m]

namespace SchemaRef

/-- The form of a pointer. -/
def toJson (s : SchemaRef) : Json := .record [("$ref", some (.string s.reference))]

/-- The fields of a pointer. -/
def fields : List (Field m ν SchemaRef) :=
  [{ name := "$ref", required := true, read := fun v _ => return ⟨← Readable.text v⟩ }]

/-- Reads a pointer. -/
def read (v : ν) : m SchemaRef := Field.readRecord fields ⟨""⟩ v

end SchemaRef

namespace Tag

/-- The form of a tag. -/
def toJson (t : Tag) : Json :=
  .record [("name", some (.string t.name)), ("description", t.description.map .string)]

/-- The fields of a tag. -/
def fields : List (Field m ν Tag) :=
  [{ name := "name", required := true
     read := fun v t => return { t with name := ← Readable.text v } },
   { name := "description"
     read := fun v t => return { t with description := ← Readable.optional Readable.text v } }]

/-- Reads a tag. -/
def read (v : ν) : m Tag := Field.readRecord fields { name := "" } v

end Tag

namespace Parameter

/-- The form of a parameter. -/
def toJson (p : Parameter) : Json :=
  .record
    [("name", some (.string p.name)), ("in", some (.string p.location)),
      ("description", some (.string p.description)), ("required", some (.bool p.required)),
      ("type", p.type.map .string), ("schema", p.schema.map SchemaRef.toJson)]

/-- The fields of a parameter. -/
def fields : List (Field m ν Parameter) :=
  [{ name := "name", required := true
     read := fun v p => return { p with name := ← Readable.text v } },
   { name := "in", required := true
     read := fun v p => return { p with location := ← Readable.text v } },
   { name := "description"
     read := fun v p => return { p with description := ← Readable.text v } },
   { name := "required"
     read := fun v p => return { p with required := ← Readable.flag v } },
   { name := "type"
     read := fun v p => return { p with type := ← Readable.optional Readable.text v } },
   { name := "schema"
     read := fun v p => return { p with schema := ← Readable.optional SchemaRef.read v } }]

/-- Reads a parameter. -/
def read (v : ν) : m Parameter :=
  Field.readRecord fields { name := "", location := "" } v

end Parameter

namespace Response

/-- The form of a response. -/
def toJson (r : Response) : Json :=
  .record
    [("description", r.description.map .string), ("type", r.type.map .string),
      ("schema", r.schema.map SchemaRef.toJson)]

/-- The fields of a response. -/
def fields : List (Field m ν Response) :=
  [{ name := "description"
     read := fun v r => return { r with description := ← Readable.optional Readable.text v } },
   { name := "type"
     read := fun v r => return { r with type := ← Readable.optional Readable.text v } },
   { name := "schema"
     read := fun v r => return { r with schema := ← Readable.optional SchemaRef.read v } }]

/-- Reads a response. -/
def read (v : ν) : m Response := Field.readRecord fields {} v

end Response

namespace Operation

/-- The form of an operation. -/
def toJson (op : Operation) : Json :=
  .record
    [("description", some (.string op.description)), ("tags", some (.strings op.tags)),
      ("parameters", some (.array (op.parameters.map Parameter.toJson))),
      ("operationId", op.operationId.map .string), ("summary", op.summary.map .string),
      ("produces", op.produces.map .strings), ("consumes", op.consumes.map .strings),
      ("responses", some (.ofMap Response.toJson op.responses))]

/-- The fields of an operation. -/
def fields : List (Field m ν Operation) :=
  [{ name := "description"
     read := fun v op => return { op with description := ← Readable.text v } },
   { name := "tags"
     read := fun v op => return { op with tags := ← Readable.list Readable.text v } },
   { name := "parameters"
     read := fun v op => return { op with parameters := ← Readable.list Parameter.read v } },
   { name := "operationId"
     read := fun v op => return { op with operationId := ← Readable.optional Readable.text v } },
   { name := "summary"
     read := fun v op => return { op with summary := ← Readable.optional Readable.text v } },
   { name := "produces"
     read := fun v op =>
      return { op with produces := ← Readable.optional (Readable.list Readable.text) v } },
   { name := "consumes"
     read := fun v op =>
      return { op with consumes := ← Readable.optional (Readable.list Readable.text) v } },
   { name := "responses"
     read := fun v op => return { op with responses := ← Readable.map Response.read v } }]

/-- Reads an operation. -/
def read (v : ν) : m Operation := Field.readRecord fields {} v

end Operation

namespace Property

/-- The form of a property. -/
def toJson (p : Property) : Json :=
  .record [("type", p.type.map .string), ("schema", p.schema.map SchemaRef.toJson)]

/-- The fields of a property. -/
def fields : List (Field m ν Property) :=
  [{ name := "type"
     read := fun v p => return { p with type := ← Readable.optional Readable.text v } },
   { name := "schema"
     read := fun v p => return { p with schema := ← Readable.optional SchemaRef.read v } }]

/-- Reads a property. -/
def read (v : ν) : m Property := Field.readRecord fields {} v

end Property

namespace Definition

/-- The form of a definition. -/
def toJson (d : Definition) : Json :=
  .record
    [("required", some (.strings d.required)),
      ("properties", some (.ofMap Property.toJson d.properties))]

/-- The fields of a definition. -/
def fields : List (Field m ν Definition) :=
  [{ name := "required"
     read := fun v d => return { d with required := ← Readable.list Readable.text v } },
   { name := "properties"
     read := fun v d => return { d with properties := ← Readable.map Property.read v } }]

/-- Reads a definition. -/
def read (v : ν) : m Definition := Field.readRecord fields {} v

end Definition

namespace Paths

/-- The form of paths. -/
def toJson (paths : Paths) : Json := .ofMap (.ofMap Operation.toJson) paths

/-- Reads paths. -/
def read (v : ν) : m Paths := Readable.map (Readable.map Operation.read) v

end Paths

namespace Definitions

/-- The form of definitions. -/
def toJson (definitions : Definitions) : Json := .ofMap Definition.toJson definitions

/-- Reads definitions. -/
def read (v : ν) : m Definitions := Readable.map Definition.read v

end Definitions

namespace Fragment

/-- The form of a fragment. -/
def toJson (f : Fragment) : Json :=
  .record
    [("paths", some f.paths.toJson), ("tags", some (.array (f.tags.map Tag.toJson))),
      ("definitions", some f.definitions.toJson)]

/-- The fields of a fragment. -/
def fields : List (Field m ν Fragment) :=
  [{ name := "paths", read := fun v f => return { f with paths := ← Paths.read v } },
   { name := "tags", read := fun v f => return { f with tags := ← Readable.list Tag.read v } },
   { name := "definitions"
     read := fun v f => return { f with definitions := ← Definitions.read v } }]

/-- Reads a fragment. -/
def read (v : ν) : m Fragment := Field.readRecord fields {} v

end Fragment

end ApiAnnotation
