import ApiAnnotation.Readable
import ApiAnnotation.Yaml.Node
import ApiAnnotation.Yaml.Scalar
import ApiAnnotation.Yaml.Scan

/-!
# YAML text as a format

The nodes of a text are read by `ApiAnnotation.Readable` like any other format. Any scalar is a text
where a text is wanted; what is kept as a whole is told apart by what plain scalars look like. Every
fault is one of shape, since nobody asks where a YAML text goes wrong.

A reference is read as the node at its anchor, so a short text may stand for a very large value. To
bound that, the references that are followed are counted over the whole of a reading.

## Main definition

* `ApiAnnotation.Yaml.decode`: reads a whole text.
-/

namespace ApiAnnotation

namespace Yaml

/-- How deep lists and maps may nest. -/
def maxDepth : Nat := 128

/-- How many references may be followed in all for each unit of the size of a document. -/
def maxRepetition : Nat := 100

/-- Reading a text may fail with a fault, and keeps count of the references that it follows. -/
abbrev Reading := StateT Nat (Except Fault)

/-- A part of a text. -/
structure Part where
  /-- The node. -/
  node : Node
  /-- How deep lists and maps may still nest in it. -/
  room : Nat
  /-- The nodes at the anchors of the document. -/
  anchors : List (Nat × Node)
  /-- How many references may be followed in the whole of the document. -/
  limit : Nat

/-- The value, if there is one, and else a fault. -/
def orFault {α : Type} (a : Option α) : Except Fault α :=
  match a with
  | some a => .ok a
  | none => .error .shape

/-! ### Scalars -/

/-- The tag of a kind of values. -/
def coreTag (name : String) : TagText :=
  .ofAscii ("tag:yaml.org,2002:".toList ++ name.toList)

/-- Whether a tag starts with an exclamation mark. -/
def isMarked (tag : TagText) : Bool := tag.head? = some '!'.toUInt8

/-- Whether the bytes of a tag are those of a text. -/
def isText (tag : TagText) : Bool := (String.fromUTF8? ⟨tag.toArray⟩).isSome

/-- Whether a tag belongs to the document alone. Nothing that is kept as a whole may have one; a tag
that is no text is none. -/
def isLocalTag (tag : Option TagText) : Bool :=
  (tag.map fun tag => isMarked tag && isText tag).getD false

/-- The value that a plain scalar stands for. -/
def untaggedValue (text : String) : Except Fault Json :=
  match meaning text with
  | .null => .ok .null
  | .bool b => .ok (.bool b)
  | .int n => .ok (.int n)
  | .wideInt => .error .shape
  | .float x => .ok (.number (.float x))
  | .text => .ok (.string text)

/-- The value that a scalar stands for. -/
def scalarValue (tag : Option TagText) (style : ScalarStyle) (text : String) :
    Except Fault Json :=
  match tag with
  | none => if style = .plain then untaggedValue text else .ok (.string text)
  | some name =>
    if isLocalTag tag then .error .shape
    else if name = coreTag "bool" then (orFault (bool? text)).map .bool
    else if name = coreTag "int" then
      (orFault ((int? text.toList).filter (fits 64))).map .int
    else if name = coreTag "float" then
      (orFault (float? text)).map fun x => .number (.float x)
    else if name = coreTag "null" then
      if text ≠ "" && isNull text then .ok .null else .error .shape
    else if isMarked name && style = .plain then untaggedValue text
    else .ok (.string text)

/-- Whether a node stands for no value. -/
def isAbsent : Node → Except Fault Bool
  | .scalar none .plain text => .ok (isNull (String.ofList text))
  | .scalar (some tag) .plain text =>
    if tag = coreTag "null" then
      if text ≠ [] && isNull (String.ofList text) then .ok true else .error .shape
    else .ok false
  | _ => .ok false

namespace Part

/-! ### References -/

/-- Follows a node to what it refers to. -/
def follow (p : Part) : Node → Reading Node
  | .reference number => do
    let count := (← get) + 1
    if p.limit < count then throw Fault.shape
    set count
    orFault (p.anchors.lookup number)
  | node => return node

/-- The node of a part, or the one that it refers to. -/
def target (p : Part) : Reading Node := p.follow p.node

/-- Another part of the same text, one level deeper. -/
def inner (p : Part) (node : Node) : Part := { p with node, room := p.room - 1 }

/-! ### Reading -/

/-- The part, unless it stands for no value. -/
def present? (p : Part) : Reading (Option Part) := do
  let node ← p.target
  if ← isAbsent node then return none
  return some { p with node }

/-- The text that a node stands for. -/
def textOf (p : Part) (node : Node) : Reading String := do
  match ← p.follow node with
  | .scalar _ _ text => return String.ofList text
  | _ => throw Fault.shape

/-- The truth value that a part stands for. -/
def flag (p : Part) : Reading Bool := do
  match ← p.target with
  | .scalar tag style text =>
    if style = .plain || (style = .literal && tag = some (coreTag "bool")) then
      orFault (bool? (String.ofList text))
    else throw Fault.shape
  | _ => throw Fault.shape

/-- The items of a part: those of a list, or none if nothing is written. -/
def items (p : Part) : Reading (Items Part) := do
  match ← p.target with
  | .list _ items =>
    if p.room = 0 then throw Fault.shape else return { items := items.map p.inner }
  | .scalar _ .plain [] => return { items := [] }
  | _ => throw Fault.shape

/-- The members of a part: those of a map, or none if nothing is written. -/
def members (p : Part) : Reading (Members Reading Part) := do
  match ← p.target with
  | .map _ members =>
    if p.room = 0 then throw Fault.shape
    else return { members := members.map fun (key, value) => (p.textOf key, p.inner value) }
  | .scalar _ .plain [] => return { members := [] }
  | _ => throw Fault.shape

/-- The value of a node that is kept as a whole, lists and maps nesting at most as deep as given. -/
def valueOf (p : Part) : Nat → Node → Reading Json
  | 0, node => do
    match ← p.follow node with
    | .scalar tag style text => scalarValue tag style (String.ofList text)
    | _ => throw Fault.shape
  | room + 1, node => do
    match ← p.follow node with
    | .scalar tag style text => scalarValue tag style (String.ofList text)
    | .list tag items =>
      if isLocalTag tag then throw Fault.shape
      return .array (← items.mapM (valueOf p room))
    | .map tag members =>
      if isLocalTag tag then throw Fault.shape
      let members ← members.mapM fun (key, value) => do
        match ← valueOf p room key with
        | .string key => return (key, ← valueOf p room value)
        | _ => throw Fault.shape
      return .object members
    | .reference _ => throw Fault.shape

end Part

/-- YAML text as a format. Nothing in a value that is passed over is followed. -/
instance : Readable Part Reading where
  present? := Part.present?
  text p := p.textOf p.node
  flag := Part.flag
  items := Part.items
  members := Part.members
  fields p := return .named (← p.members)
  whole p := p.valueOf p.room p.node
  skip _ := return

/-- Reads a whole text. A text without a document is read like an empty value. -/
def decode {α : Type} (read : Part → Reading α) (text : String) : Except Fault α := do
  let content ← orFault ((Token.ofText? text).bind Content.ofTokens?)
  let node := content.root.getD .empty
  let limit := maxRepetition * node.size
  (read { node, room := maxDepth, anchors := content.anchors, limit }).run' 0

end Yaml

end ApiAnnotation
