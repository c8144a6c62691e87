import ApiAnnotation.Document
import ApiAnnotation.Form.Operation
import ApiAnnotation.Json.Text
import ApiAnnotation.Json.Written

/-!
# The JSON form of templates and documents

The members of a template and of its `info` that this library does not know are kept and written
again, sorted by key. To that end a template is read in two steps. Its paths, tags and definitions
are read where they stand; all other members are first read as plain values, and sorted out when
the template has come to its end.
-/

namespace ApiAnnotation

variable {m : Type → Type} [Monad m] [MonadExcept Fault m] {ν : Type} [Readable ν m]

/-- A record together with members that are kept as they are. -/
structure WithExtra (α : Type) where
  /-- The record. -/
  record : α
  /-- The further members in their order. -/
  extra : List (String × Json) := []

/-- A field of the record proper. -/
def Field.ofRecord {α : Type} (name : String) (read : ν → α → m α) : Field m ν (WithExtra α) where
  name
  read := fun v state => return { state with record := ← read v state.record }

namespace WithExtra

/-- Keeps a member. -/
def keep {α : Type} (key : String) (v : ν) (state : WithExtra α) : m (WithExtra α) :=
  return { state with extra := state.extra ++ [(key, ← Readable.whole v)] }

/-- The members that were kept, sorted and in normal form. -/
def normalExtra {α : Type} (state : WithExtra α) : SortedMap Json :=
  (SortedMap.ofList state.extra).map Json.normal

/-- Reads a record from its members, all members of other names being kept. -/
def read {α : Type} (fields : List (Field m ν (WithExtra α))) (initial : α)
    (members : Members m ν) : m (WithExtra α) :=
  Field.readMembers fields keep ⟨initial, []⟩ members

end WithExtra

/-! ### Metadata -/

namespace Info

/-- The form of an `info` object. -/
def toJson (info : Info) : Json :=
  .object (
    [("title", Json.string info.title), ("version", Json.string info.version)] ++
      (info.description.map fun s => ("description", Json.string s)).toList ++ info.extra.entries)

/-- The fields of an `info` object. -/
def fields : List (Field m ν (WithExtra Info)) :=
  [.ofRecord "title" fun v info => return { info with title := ← Readable.text v },
   .ofRecord "version" fun v info => return { info with version := ← Readable.text v },
   .ofRecord "description" fun v info =>
    return { info with description := ← Readable.optional Readable.text v }]

/-- Reads an `info` object. -/
def read (v : ν) : m Info := do
  let state ← WithExtra.read fields {} (← Readable.members v)
  return { state.record with extra := state.normalExtra }

end Info

namespace Metadata

/-- A list that is left out when it is empty. -/
def nonempty (texts : List String) : Option Json :=
  if texts = [] then none else some (.strings texts)

/-- The members of metadata in their order. -/
def toMembers (m : Metadata) : List (String × Json) :=
  [("info", some m.info.toJson), ("host", m.host.map .string), ("basePath", m.basePath.map .string),
    ("schemes", nonempty m.schemes), ("consumes", nonempty m.consumes),
    ("produces", nonempty m.produces)].filterMap (fun (key, value) => value.map (key, ·)) ++
    m.extra.entries

/-- The fields of metadata. -/
def fields : List (Field m ν (WithExtra Metadata)) :=
  [.ofRecord "info" fun v m => return { m with info := ← Info.read v },
   .ofRecord "host" fun v m => return { m with host := ← Readable.optional Readable.text v },
   .ofRecord "basePath" fun v m =>
    return { m with basePath := ← Readable.optional Readable.text v },
   .ofRecord "schemes" fun v m => return { m with schemes := ← Readable.list Readable.text v },
   .ofRecord "consumes" fun v m => return { m with consumes := ← Readable.list Readable.text v },
   .ofRecord "produces" fun v m => return { m with produces := ← Readable.list Readable.text v }]

/-- Sorts out members that were read as plain values. -/
def ofMembers (members : List (String × Json)) : Except Fault Metadata := do
  let state ← WithExtra.read fields {} { members := members.map fun (key, v) => (.ok key, v) }
  return { state.record with extra := state.normalExtra }

end Metadata

/-! ### Templates and documents -/

/-- The members that hold paths, tags and definitions. -/
def partMembers (paths : Paths) (tags : List Tag) (definitions : Definitions) :
    List (String × Json) :=
  [("paths", paths.toJson), ("tags", .array (tags.map Tag.toJson)),
    ("definitions", definitions.toJson)]

namespace Template

/-- The form of a template. -/
def toJson (t : Template) : Json :=
  .object (t.metadata.toMembers ++ partMembers t.paths t.tags t.definitions)

/-- The fields of a template that are read where they stand. -/
def fields : List (Field m ν (WithExtra Template)) :=
  [.ofRecord "paths" fun v t => return { t with paths := ← Paths.read v },
   .ofRecord "tags" fun v t => return { t with tags := ← Readable.list Tag.read v },
   .ofRecord "definitions" fun v t => return { t with definitions := ← Definitions.read v }]

/-- Reads a template. -/
def read (v : ν) : m Template := do
  let state ← WithExtra.read fields {} (← Readable.members v)
  return { state.record with metadata := ← MonadExcept.ofExcept (Metadata.ofMembers state.extra) }

end Template

namespace Document

/-- The form of a document. -/
def toJson (doc : Document) : Json :=
  .object (
    (formatKey, .string doc.swagger) :: doc.metadata.toMembers ++
      partMembers doc.paths doc.tags doc.definitions)

end Document

end ApiAnnotation
