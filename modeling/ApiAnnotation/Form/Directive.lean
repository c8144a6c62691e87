import ApiAnnotation.Directive
import ApiAnnotation.Readable

/-!
# The JSON form of annotation blocks

Blocks and directives are written as records without the parts they lack, and read leniently: a
missing description or name is empty, and `null` stands for a missing one. The place of a block in
its source is not part of its form.
-/

namespace ApiAnnotation

variable {m : Type → Type} [Monad m] [MonadExcept Fault m] {ν : Type} [Readable ν m]

namespace TypeExpr

/-- The form of a type. -/
def toJson (t : TypeExpr) : Json := .record [("name", t.name.map .string)]

/-- The fields of a type. -/
def fields : List (Field m ν TypeExpr) :=
  [{ name := "name"
     read := fun v t => return { t with name := ← Readable.optional Readable.text v } }]

/-- Reads a type. -/
def read (v : ν) : m TypeExpr := Field.readRecord fields {} v

end TypeExpr

namespace Directive

/-- The form of a directive. -/
def toJson (d : Directive) : Json :=
  .record
    [("title", some (.string d.title)), ("name", some (.string d.name)),
      ("type", d.type.map TypeExpr.toJson), ("description", some (.string d.description))]

/-- The fields of a directive. -/
def fields : List (Field m ν Directive) :=
  [{ name := "title", required := true
     read := fun v d => return { d with title := ← Readable.text v } },
   { name := "name"
     read := fun v d => return { d with name := ← Readable.orDefault "" Readable.text v } },
   { name := "type"
     read := fun v d => return { d with type := ← Readable.optional TypeExpr.read v } },
   { name := "description"
     read := fun v d => return { d with description := ← Readable.orDefault "" Readable.text v } }]

/-- Reads a directive. -/
def read (v : ν) : m Directive := Field.readRecord fields default v

end Directive

namespace Block

/-- The form of a block. -/
def toJson (block : Block) : Json :=
  .record
    [("description", some (.string block.description)),
      ("tags", some (.array (block.directives.map Directive.toJson)))]

/-- The fields of a block. -/
def fields : List (Field m ν Block) :=
  [{ name := "description"
     read := fun v b => return { b with description := ← Readable.orDefault "" Readable.text v } },
   { name := "tags", alias? := some "directives"
     read := fun v b => return { b with directives := ← Readable.list Directive.read v } }]

/-- Reads a block. -/
def read (v : ν) : m Block := Field.readRecord fields {} v

end Block

end ApiAnnotation
