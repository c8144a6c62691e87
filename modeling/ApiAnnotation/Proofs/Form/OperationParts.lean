import ApiAnnotation.Form.Operation
import ApiAnnotation.Proofs.Form.Keeping

/-!
# What comes back of operations and definitions

Each record has its parts: the members that it has fields for, how their values come back, and what
is written where there is none. Whatever a record is read from comes back part by part, and so do
the maps of operations and of definitions, all the way down to the texts and truth values.

A member that is no part of its record, such as a `deprecated` at an operation, does not come back.

## Main statements

* `ApiAnnotation.Paths.carries_read`, `ApiAnnotation.Definitions.carries_read`: paths and
  definitions come back.
-/

namespace ApiAnnotation

open Json.Tree Readable

variable {ν : Type} [Readable ν (Except Fault)] [HasTree ν]

namespace SchemaRef

/-- The parts of a pointer. -/
def parts : List Part :=
  [{ name := "$ref", keeps := KeepsText, required := true }]

theorem carries_read : Carries (read : ν → Except Fault SchemaRef) toJson (KeepsRecord parts) := by
  refine Field.carries_readRecord (fun _ => rfl) (by rfl) (fun _ => rfl) (by decide) (by decide) ?_
  refine .cons (.value rfl rfl (fun _ _ => rfl) carries_text fun _ _ => rfl) ?_
  exact .nil _

end SchemaRef

namespace Tag

/-- The parts of a tag. -/
def parts : List Part :=
  [{ name := "name", keeps := KeepsText, required := true },
   { name := "description", keeps := KeepsText }]

theorem carries_read : Carries (read : ν → Except Fault Tag) toJson (KeepsRecord parts) := by
  refine Field.carries_readRecord (fun _ => rfl) (by rfl) (fun _ => rfl) (by decide) (by decide) ?_
  refine .cons (.value rfl rfl (fun _ _ => rfl) carries_text fun _ _ => rfl) ?_
  refine .cons (.optional rfl rfl ⟨rfl, rfl, rfl⟩ (fun _ _ => rfl) carries_text fun _ _ => rfl) ?_
  exact .nil _

end Tag

namespace Parameter

/-- The parts of a parameter. -/
def parts : List Part :=
  [{ name := "name", keeps := KeepsText, required := true },
   { name := "in", keeps := KeepsText, required := true },
   { name := "description", keeps := KeepsText, default := some (.string "") },
   { name := "required", keeps := KeepsFlag, default := some (.bool false) },
   { name := "type", keeps := KeepsText },
   { name := "schema", keeps := KeepsRecord SchemaRef.parts }]

theorem carries_read : Carries (read : ν → Except Fault Parameter) toJson (KeepsRecord parts) := by
  refine Field.carries_readRecord (fun _ => rfl) (by rfl) (fun _ => rfl) (by decide) (by decide) ?_
  refine .cons (.value rfl rfl (fun _ _ => rfl) carries_text fun _ _ => rfl) ?_
  refine .cons (.value rfl rfl (fun _ _ => rfl) carries_text fun _ _ => rfl) ?_
  refine .cons (.value rfl rfl (fun _ _ => rfl) carries_text fun _ _ => rfl) ?_
  refine .cons (.value rfl rfl (fun _ _ => rfl) carries_flag fun _ _ => rfl) ?_
  refine .cons (.optional rfl rfl ⟨rfl, rfl, rfl⟩ (fun _ _ => rfl) carries_text fun _ _ => rfl) ?_
  refine .cons (.optional rfl rfl ⟨rfl, rfl, rfl⟩ (fun _ _ => rfl) SchemaRef.carries_read
    fun _ _ => rfl) ?_
  exact .nil _

end Parameter

namespace Response

/-- The parts of a response. -/
def parts : List Part :=
  [{ name := "description", keeps := KeepsText },
   { name := "type", keeps := KeepsText },
   { name := "schema", keeps := KeepsRecord SchemaRef.parts }]

theorem carries_read : Carries (read : ν → Except Fault Response) toJson (KeepsRecord parts) := by
  refine Field.carries_readRecord (fun _ => rfl) (by rfl) (fun _ => rfl) (by decide) (by decide) ?_
  refine .cons (.optional rfl rfl ⟨rfl, rfl, rfl⟩ (fun _ _ => rfl) carries_text fun _ _ => rfl) ?_
  refine .cons (.optional rfl rfl ⟨rfl, rfl, rfl⟩ (fun _ _ => rfl) carries_text fun _ _ => rfl) ?_
  refine .cons (.optional rfl rfl ⟨rfl, rfl, rfl⟩ (fun _ _ => rfl) SchemaRef.carries_read
    fun _ _ => rfl) ?_
  exact .nil _

end Response

namespace Operation

/-- The parts of an operation. -/
def parts : List Part :=
  [{ name := "description", keeps := KeepsText, default := some (.string "") },
   { name := "tags", keeps := KeepsItems KeepsText, default := some (.array []) },
   { name := "parameters", keeps := KeepsItems (KeepsRecord Parameter.parts)
     default := some (.array []) },
   { name := "operationId", keeps := KeepsText },
   { name := "summary", keeps := KeepsText },
   { name := "produces", keeps := KeepsItems KeepsText },
   { name := "consumes", keeps := KeepsItems KeepsText },
   { name := "responses", keeps := KeepsMap (KeepsRecord Response.parts)
     default := some (.object []) }]

theorem carries_read : Carries (read : ν → Except Fault Operation) toJson (KeepsRecord parts) := by
  refine Field.carries_readRecord (fun _ => rfl) (by rfl) (fun _ => rfl) (by decide) (by decide) ?_
  refine .cons (.value rfl rfl (fun _ _ => rfl) carries_text fun _ _ => rfl) ?_
  refine .cons (.value rfl rfl (fun _ _ => rfl) carries_text.list fun _ _ => rfl) ?_
  refine .cons (.value rfl rfl (fun _ _ => rfl) Parameter.carries_read.list fun _ _ => rfl) ?_
  refine .cons (.optional rfl rfl ⟨rfl, rfl, rfl⟩ (fun _ _ => rfl) carries_text fun _ _ => rfl) ?_
  refine .cons (.optional rfl rfl ⟨rfl, rfl, rfl⟩ (fun _ _ => rfl) carries_text fun _ _ => rfl) ?_
  refine .cons (.optional rfl rfl ⟨rfl, rfl, rfl⟩ (fun _ _ => rfl) carries_text.list
    fun _ _ => rfl) ?_
  refine .cons (.optional rfl rfl ⟨rfl, rfl, rfl⟩ (fun _ _ => rfl) carries_text.list
    fun _ _ => rfl) ?_
  refine .cons (.value rfl rfl (fun _ _ => rfl) Response.carries_read.map fun _ _ => rfl) ?_
  exact .nil _

end Operation

namespace Property

/-- The parts of a property. -/
def parts : List Part :=
  [{ name := "type", keeps := KeepsText },
   { name := "schema", keeps := KeepsRecord SchemaRef.parts }]

theorem carries_read : Carries (read : ν → Except Fault Property) toJson (KeepsRecord parts) := by
  refine Field.carries_readRecord (fun _ => rfl) (by rfl) (fun _ => rfl) (by decide) (by decide) ?_
  refine .cons (.optional rfl rfl ⟨rfl, rfl, rfl⟩ (fun _ _ => rfl) carries_text fun _ _ => rfl) ?_
  refine .cons (.optional rfl rfl ⟨rfl, rfl, rfl⟩ (fun _ _ => rfl) SchemaRef.carries_read
    fun _ _ => rfl) ?_
  exact .nil _

end Property

namespace Definition

/-- The parts of a definition. -/
def parts : List Part :=
  [{ name := "required", keeps := KeepsItems KeepsText, default := some (.array []) },
   { name := "properties", keeps := KeepsMap (KeepsRecord Property.parts)
     default := some (.object []) }]

theorem carries_read : Carries (read : ν → Except Fault Definition) toJson (KeepsRecord parts) := by
  refine Field.carries_readRecord (fun _ => rfl) (by rfl) (fun _ => rfl) (by decide) (by decide) ?_
  refine .cons (.value rfl rfl (fun _ _ => rfl) carries_text.list fun _ _ => rfl) ?_
  refine .cons (.value rfl rfl (fun _ _ => rfl) Property.carries_read.map fun _ _ => rfl) ?_
  exact .nil _

end Definition

/-- How paths come back: URI by URI, method by method, and each operation part by part. -/
def Paths.Keeps : Json.Tree → Json → Prop := KeepsMap (KeepsMap (KeepsRecord Operation.parts))

/-- How definitions come back: name by name, and each definition part by part. -/
def Definitions.Keeps : Json.Tree → Json → Prop := KeepsMap (KeepsRecord Definition.parts)

/-- **Paths come back.** -/
theorem Paths.carries_read : Carries (read : ν → Except Fault Paths) toJson Paths.Keeps :=
  Operation.carries_read.map.map

/-- **Definitions come back.** -/
theorem Definitions.carries_read :
    Carries (read : ν → Except Fault Definitions) toJson Definitions.Keeps :=
  Definition.carries_read.map

end ApiAnnotation
