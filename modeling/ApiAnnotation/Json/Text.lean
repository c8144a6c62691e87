import ApiAnnotation.Json.Tree
import ApiAnnotation.Readable

/-!
# JSON text as a format

The tree of a text is read by `ApiAnnotation.Readable` like any other format. Lists and objects that
are kept nest at most `ApiAnnotation.Json.maxDepth` deep; skipped ones may nest deeper.

## Main definitions

* `ApiAnnotation.Json.decode`: reads a whole text.
* `ApiAnnotation.Json.ofText`: reads a whole text as a value.
-/

namespace ApiAnnotation

namespace Json

/-- How deep lists and objects may nest. -/
def maxDepth : Nat := 127

/-- A part of a text, and how deep lists and objects may still nest in it. -/
structure Text where
  /-- The tree of the part. -/
  tree : Tree
  /-- The depth that is left. -/
  room : Nat

/-- The fault of a value of another shape than asked for. -/
def Tree.mismatch : Tree → Fault
  | .broken stop => stop.kept
  | .string none => .malformed
  | .number none => .malformed
  | _ => .shape

mutual

/-- The fault that a skipped value runs into. -/
def Tree.skipFault? : Tree → Option Fault
  | .broken stop => some stop.skipped
  | .array items close => (itemsSkipFault? items).or (close.map (·.skipped))
  | .object members close => (membersSkipFault? members).or (close.map (·.skipped))
  | _ => none

/-- The fault that skipped items run into. -/
def itemsSkipFault? : List Tree → Option Fault
  | [] => none
  | item :: items => item.skipFault?.or (itemsSkipFault? items)

/-- The fault that skipped members run into. -/
def membersSkipFault? : List (Option String × Tree) → Option Fault
  | [] => none
  | (_, value) :: members => value.skipFault?.or (membersSkipFault? members)

end

/-- The key of a member that is kept. -/
def keptKey : Option String → Except Fault String
  | some key => .ok key
  | none => .error .malformed

mutual

/-- The value of a tree that is kept as a whole. -/
def Tree.value (room : Nat) : Tree → Except Fault Json
  | .null => .ok .null
  | .bool b => .ok (.bool b)
  | .number (some n) => .ok (.number n)
  | .string (some s) => .ok (.string s)
  | .number none | .string none => .error .malformed
  | .broken stop => .error stop.kept
  | .array items close =>
    match room with
    | 0 => .error .malformed
    | room + 1 => do
      let items ← itemValues room items
      Fault.check (close.map (·.kept))
      return .array items
  | .object members close =>
    match room with
    | 0 => .error .malformed
    | room + 1 => do
      let members ← memberValues room members
      Fault.check (close.map (·.kept))
      return .object members

/-- The values of items that are kept. -/
def itemValues (room : Nat) : List Tree → Except Fault (List Json)
  | [] => .ok []
  | item :: items => do
    let value ← item.value room
    return value :: (← itemValues room items)

/-- The keys and values of members that are kept. -/
def memberValues (room : Nat) : List (Option String × Tree) → Except Fault (List (String × Json))
  | [] => .ok []
  | (key, value) :: members => do
    let key ← keptKey key
    let value ← value.value room
    return (key, value) :: (← memberValues room members)

end

namespace Text

/-- The items of a list at the given depth. -/
def enterItems (room : Nat) (items : List Tree) (close : Option Break) :
    Except Fault (Items Text) :=
  match room with
  | 0 => .error .malformed
  | room + 1 => .ok { items := items.map (⟨·, room⟩), close := close.map (·.kept) }

/-- The members of an object at the given depth. -/
def enterMembers (room : Nat) (members : List (Option String × Tree)) (close : Option Break) :
    Except Fault (Members (Except Fault) Text) :=
  match room with
  | 0 => .error .malformed
  | room + 1 => .ok
    { members := members.map fun (key, value) => (keptKey key, ⟨value, room⟩)
      close := close.map (·.kept) }

end Text

/-- JSON text as a format. -/
instance : Readable Text (Except Fault) where
  present?
    | ⟨.null, _⟩ => .ok none
    | v => .ok (some v)
  text
    | ⟨.string (some s), _⟩ => .ok s
    | ⟨tree, _⟩ => .error tree.mismatch
  flag
    | ⟨.bool b, _⟩ => .ok b
    | ⟨tree, _⟩ => .error tree.mismatch
  items
    | ⟨.array items close, room⟩ => Text.enterItems room items close
    | ⟨tree, _⟩ => .error tree.mismatch
  members
    | ⟨.object members close, room⟩ => Text.enterMembers room members close
    | ⟨tree, _⟩ => .error tree.mismatch
  fields
    | ⟨.object members close, room⟩ => (Text.enterMembers room members close).map .named
    | ⟨.array items close, room⟩ => (Text.enterItems room items close).map .positional
    | ⟨tree, _⟩ => .error tree.mismatch
  whole v := v.tree.value v.room
  skip v := Fault.check v.tree.skipFault?

/-- Reads a whole text, which must hold one value and nothing else. -/
def decode {α : Type} (read : Text → Except Fault α) (text : String) : Except Fault α := do
  let (tree, more) := Tree.ofText text
  let a ← read ⟨tree, maxDepth⟩
  if more then .error .malformed
  return a

/-- Reads a whole text as a value. -/
def ofText (text : String) : Except Fault Json := decode Readable.whole text

end Json

end ApiAnnotation
