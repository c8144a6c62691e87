import ApiAnnotation.Form.Operation
import ApiAnnotation.Proofs.Form.Shown

/-!
# Operations and definitions are read back

Each record is written into an object that a text can hold, and is read back from it in every format
that shows JSON values. The fields of a record are gone through in the order in which they are
written. What is in the way of a field to be read back is the depth of its value, so each record is
given room for as much as its fields nest.

## Main statements

* `ApiAnnotation.Paths.read_shown`, `ApiAnnotation.Definitions.read_shown`: paths and definitions
  are read back.
* `ApiAnnotation.Fragment.read_shown`: fragments are read back.
* `ApiAnnotation.Paths.toJson_fits`, `ApiAnnotation.Definitions.toJson_fits`: a text can hold them.
-/

namespace ApiAnnotation

open ShowsJson

variable {ν : Type} [Readable ν (Except Fault)] [ShowsJson ν] (room : Nat)

namespace SchemaRef

theorem read_shown (s : SchemaRef) : read (shown (room + 1) s.toJson : ν) = .ok s := by
  refine Field.Reads.readRecord ?_ (by simp) (by simp [fields])
  refine .value rfl rfl (.of_eq fun _ _ => rfl) (text_shown _ _) ?_
  exact .done s

theorem toJson_fits (s : SchemaRef) : s.toJson.Fits (room + 1) := by
  refine .record (by simp) ?_
  simp [Json.Fits.string]

end SchemaRef

namespace Tag

theorem read_shown (t : Tag) : read (shown (room + 1) t.toJson : ν) = .ok t := by
  refine Field.Reads.readRecord ?_ (by simp) (by simp [fields])
  refine .value rfl rfl (.of_eq fun _ _ => rfl) (text_shown _ _) ?_
  refine .optional rfl rfl (.of_eq fun _ _ => rfl) nofun (text_shown _) rfl ?_
  exact .done t

theorem toJson_fits (t : Tag) : t.toJson.Fits (room + 1) := by
  refine .record (by simp) ?_
  simp [Json.Fits.string]

end Tag

namespace Parameter

theorem read_shown (p : Parameter) : read (shown (room + 2) p.toJson : ν) = .ok p := by
  refine Field.Reads.readRecord ?_ (by simp) (by simp [fields])
  refine .value rfl rfl (.of_eq fun _ _ => rfl) (text_shown _ _) ?_
  refine .value rfl rfl (.of_eq fun _ _ => rfl) (text_shown _ _) ?_
  refine .value rfl rfl (.of_eq fun _ _ => rfl) (text_shown _ _) ?_
  refine .value rfl rfl (.of_eq fun _ _ => rfl) (flag_shown _ _) ?_
  refine .optional rfl rfl (.of_eq fun _ _ => rfl) nofun (text_shown _) rfl ?_
  refine .optional rfl rfl (.of_eq fun _ _ => rfl) nofun (SchemaRef.read_shown _) rfl ?_
  exact .done p

theorem toJson_fits (p : Parameter) : p.toJson.Fits (room + 2) := by
  refine .record (by simp) ?_
  simp [Json.Fits.string, Json.Fits.bool, SchemaRef.toJson_fits]

end Parameter

namespace Response

theorem read_shown (r : Response) : read (shown (room + 2) r.toJson : ν) = .ok r := by
  refine Field.Reads.readRecord ?_ (by simp) (by simp [fields])
  refine .optional rfl rfl (.of_eq fun _ _ => rfl) nofun (text_shown _) rfl ?_
  refine .optional rfl rfl (.of_eq fun _ _ => rfl) nofun (text_shown _) rfl ?_
  refine .optional rfl rfl (.of_eq fun _ _ => rfl) nofun (SchemaRef.read_shown _) rfl ?_
  exact .done r

theorem toJson_fits (r : Response) : r.toJson.Fits (room + 2) := by
  refine .record (by simp) ?_
  simp [Json.Fits.string, SchemaRef.toJson_fits]

end Response

namespace Operation

theorem read_shown (op : Operation) : read (shown (room + 4) op.toJson : ν) = .ok op := by
  refine Field.Reads.readRecord ?_ (by simp) (by simp [fields])
  refine .value rfl rfl (.of_eq fun _ _ => rfl) (text_shown _ _) ?_
  refine .value rfl rfl (.of_eq fun _ _ => rfl) (Readable.strings_shown _) ?_
  refine .value rfl rfl (.of_eq fun _ _ => rfl)
    (Readable.list_shown fun p _ => Parameter.read_shown room p) ?_
  refine .optional rfl rfl (.of_eq fun _ _ => rfl) nofun (text_shown _) rfl ?_
  refine .optional rfl rfl (.of_eq fun _ _ => rfl) nofun (text_shown _) rfl ?_
  refine .optional rfl rfl (.of_eq fun _ _ => rfl) nofun Readable.strings_shown rfl ?_
  refine .optional rfl rfl (.of_eq fun _ _ => rfl) nofun Readable.strings_shown rfl ?_
  refine .value rfl rfl (.of_eq fun _ _ => rfl)
    (Readable.map_shown _ (Response.read_shown room)) ?_
  exact .done op

theorem toJson_fits (op : Operation) : op.toJson.Fits (room + 4) := by
  have hparameters : (Json.array (op.parameters.map Parameter.toJson)).Fits (room + 3) :=
    .list _ (Parameter.toJson_fits room)
  have hresponses : (Json.ofMap Response.toJson op.responses).Fits (room + 3) :=
    .ofMap _ (Response.toJson_fits room)
  refine .record (by simp) ?_
  simp [Json.Fits.string, Json.Fits.strings, hparameters, hresponses]

end Operation

namespace Property

theorem read_shown (p : Property) : read (shown (room + 2) p.toJson : ν) = .ok p := by
  refine Field.Reads.readRecord ?_ (by simp) (by simp [fields])
  refine .optional rfl rfl (.of_eq fun _ _ => rfl) nofun (text_shown _) rfl ?_
  refine .optional rfl rfl (.of_eq fun _ _ => rfl) nofun (SchemaRef.read_shown _) rfl ?_
  exact .done p

theorem toJson_fits (p : Property) : p.toJson.Fits (room + 2) := by
  refine .record (by simp) ?_
  simp [Json.Fits.string, SchemaRef.toJson_fits]

end Property

namespace Definition

theorem read_shown (d : Definition) : read (shown (room + 4) d.toJson : ν) = .ok d := by
  refine Field.Reads.readRecord ?_ (by simp) (by simp [fields])
  refine .value rfl rfl (.of_eq fun _ _ => rfl) (Readable.strings_shown _) ?_
  refine .value rfl rfl (.of_eq fun _ _ => rfl)
    (Readable.map_shown _ (Property.read_shown room)) ?_
  exact .done d

theorem toJson_fits (d : Definition) : d.toJson.Fits (room + 4) := by
  have hproperties : (Json.ofMap Property.toJson d.properties).Fits (room + 3) :=
    .ofMap _ (Property.toJson_fits room)
  refine .record (by simp) ?_
  simp [Json.Fits.strings, hproperties]

end Definition

/-- **Paths are read back.** -/
theorem Paths.read_shown (paths : Paths) : read (shown (room + 6) paths.toJson : ν) = .ok paths :=
  Readable.map_shown _ fun methods => Readable.map_shown methods (Operation.read_shown room)

theorem Paths.toJson_fits (paths : Paths) : paths.toJson.Fits (room + 6) :=
  .ofMap _ fun methods => .ofMap methods (Operation.toJson_fits room)

/-- **Definitions are read back.** -/
theorem Definitions.read_shown (definitions : Definitions) :
    read (shown (room + 5) definitions.toJson : ν) = .ok definitions :=
  Readable.map_shown _ (Definition.read_shown room)

theorem Definitions.toJson_fits (definitions : Definitions) :
    definitions.toJson.Fits (room + 5) :=
  .ofMap _ (Definition.toJson_fits room)

namespace Fragment

/-- **A fragment is read back.** -/
theorem read_shown (f : Fragment) : read (shown (room + 7) f.toJson : ν) = .ok f := by
  refine Field.Reads.readRecord ?_ (by simp) (by simp [fields])
  refine .value rfl rfl (.of_eq fun _ _ => rfl) (Paths.read_shown room f.paths) ?_
  refine .value rfl rfl (.of_eq fun _ _ => rfl)
    (Readable.list_shown fun t _ => Tag.read_shown (room + 4) t) ?_
  refine .value rfl rfl (.of_eq fun _ _ => rfl)
    (Definitions.read_shown (room + 1) f.definitions) ?_
  exact .done f

theorem toJson_fits (f : Fragment) : f.toJson.Fits (room + 7) := by
  have htags : (Json.array (f.tags.map Tag.toJson)).Fits (room + 6) :=
    .list _ (Tag.toJson_fits (room + 4))
  refine .record (by simp) ?_
  simp [htags, Paths.toJson_fits, Definitions.toJson_fits]

end Fragment

end ApiAnnotation
