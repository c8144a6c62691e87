import ApiAnnotation.Fault
import ApiAnnotation.Json

/-!
# Reading records

Directives, operations and templates are read from JSON values, from JSON text and from YAML. They
are read in the same way from all three: `ApiAnnotation.Readable` says what a format must offer, and
the rest of the library reads options, lists, maps and records by that. A format also says in which
monad its values are read: reading may fail with a fault, and a format that bounds how much is read
in all keeps count of it there.

A record is read from named members in any order, or from a list of its fields in their order.
Members of other names are skipped. A field that is missing keeps its default; one that is required
must be there, and none may be given twice. A fault is told as soon as it is met, so the members
are read in the order in which they stand.
-/

namespace ApiAnnotation

variable {m : Type → Type} {ν α : Type}

/-- Items in their order, and the fault after them if the list is not closed properly. -/
structure Items (ν : Type) where
  /-- The items. -/
  items : List ν
  /-- The fault after the items. -/
  close : Option Fault := none

/-- Members in their order, and the fault after them if the object is not closed properly. -/
structure Members (m : Type → Type) (ν : Type) where
  /-- The members. A key is read too, and may fail to be a text. -/
  members : List (m String × ν)
  /-- The fault after the members. -/
  close : Option Fault := none

/-- The two ways to write a record. -/
inductive Fields (m : Type → Type) (ν : Type) where
  /-- By names. -/
  | named (members : Members m ν)
  /-- By position. -/
  | positional (items : Items ν)

/-- A format that records can be read from, its values being read in the monad `m`. -/
class Readable (ν : Type) (m : outParam (Type → Type)) where
  /-- The value, unless it stands for no value. -/
  present? : ν → m (Option ν)
  /-- The value as a text. -/
  text : ν → m String
  /-- The value as a truth value. -/
  flag : ν → m Bool
  /-- The value as a list. -/
  items : ν → m (Items ν)
  /-- The value as a map. -/
  members : ν → m (Members m ν)
  /-- The value as a record. -/
  fields : ν → m (Fields m ν)
  /-- The whole value, whatever its shape. -/
  whole : ν → m Json
  /-- Passes over the value. -/
  skip : ν → m Unit

variable [Monad m] [MonadExcept Fault m]

/-- Fails with the fault, if there is one. -/
def Fault.check : Option Fault → m Unit
  | none => return
  | some fault => throw fault

namespace Readable

variable [Readable ν m]

/-- Reads a value that may be absent. -/
def optional (read : ν → m α) (v : ν) : m (Option α) := do
  match ← present? v with
  | none => return none
  | some v => return some (← read v)

/-- Reads a value that may be absent, in place of a default. -/
def orDefault (default : α) (read : ν → m α) (v : ν) : m α :=
  return (← optional read v).getD default

/-- Reads items in turn. -/
def each (read : ν → m α) : List ν → m (List α)
  | [] => return []
  | v :: vs => do
    let a ← read v
    return a :: (← each read vs)

/-- Reads a list. -/
def list (read : ν → m α) (v : ν) : m (List α) := do
  let items ← Readable.items v
  let as ← each read items.items
  Fault.check items.close
  return as

/-- Reads the values of members in turn. -/
def eachMember (read : ν → m α) : List (m String × ν) → m (List (String × α))
  | [] => return []
  | (key, v) :: rest => do
    let key ← key
    let a ← read v
    return (key, a) :: (← eachMember read rest)

/-- Reads a map. The last value of a key counts. -/
def map (read : ν → m α) (v : ν) : m (SortedMap α) := do
  let members ← Readable.members v
  let entries ← eachMember read members.members
  Fault.check members.close
  return .ofList entries

end Readable

/-! ### Records -/

/-- A field of a record that is read from `ν`. -/
structure Field (m : Type → Type) (ν : Type) (α : Type) where
  /-- The name under which it is written. -/
  name : String
  /-- Another name under which it is read. -/
  alias? : Option String := none
  /-- Whether it must be there. -/
  required : Bool := false
  /-- Reads its value into the record. -/
  read : ν → α → m α

namespace Field

/-- Whether the field goes by a name. -/
def answersTo (key : String) (field : Field m ν α) : Bool :=
  field.name = key || field.alias? = some key

/-- Reads named members in turn, those of other names being left to `other`. Gives the record and
the names of the fields that were there. -/
def readNamed (fields : List (Field m ν α)) (other : String → ν → α → m α) :
    List (m String × ν) → List String → α → m (α × List String)
  | [], seen, record => return (record, seen)
  | (key, v) :: rest, seen, record => do
    let key ← key
    match fields.find? (answersTo key) with
    | some field =>
      if seen.contains field.name then throw Fault.shape
      else
        let record ← field.read v record
        readNamed fields other rest (field.name :: seen) record
    | none =>
      let record ← other key v record
      readNamed fields other rest seen record

/-- Fails if a field is missing that must be there. -/
def checkRequired (fields : List (Field m ν α)) (seen : List String) : m Unit :=
  if fields.any fun field => field.required && !seen.contains field.name then throw Fault.shape
  else return

/-- Reads a record from its members, those of other names being left to `other`. -/
def readMembers (fields : List (Field m ν α)) (other : String → ν → α → m α) (initial : α)
    (members : Members m ν) : m α := do
  let (record, seen) ← readNamed fields other members.members [] initial
  Fault.check members.close
  checkRequired fields seen
  return record

/-- Reads the fields of a record from a list. -/
def readPositional (items : Items ν) : List (Field m ν α) → List ν → α → m α
  | [], [], record => do
    Fault.check items.close
    return record
  | [], _ :: _, _ => throw Fault.surplus
  | fields, [], record => do
    Fault.check items.close
    checkRequired fields []
    return record
  | field :: fields, v :: vs, record => do
    let record ← field.read v record
    readPositional items fields vs record

/-- Reads a record whose fields are fixed. -/
def readRecord [Readable ν m] (fields : List (Field m ν α)) (initial : α) (v : ν) : m α := do
  match ← Readable.fields v with
  | .named members =>
    readMembers fields (fun _ v record => do Readable.skip v; return record) initial members
  | .positional items => readPositional items fields items.items initial

end Field

/-! ### JSON values -/

/-- JSON values as a format. Every fault is one of shape. -/
instance : Readable Json (Except Fault) where
  present?
    | .null => .ok none
    | v => .ok (some v)
  text
    | .string s => .ok s
    | _ => .error .shape
  flag
    | .bool b => .ok b
    | _ => .error .shape
  items
    | .array items => .ok { items }
    | _ => .error .shape
  members
    | .object members => .ok { members := members.map fun (key, value) => (.ok key, value) }
    | _ => .error .shape
  fields
    | .object members =>
      .ok (.named { members := members.map fun (key, value) => (.ok key, value) })
    | .array items => .ok (.positional { items })
    | _ => .error .shape
  whole := .ok
  skip _ := .ok ()

end ApiAnnotation
