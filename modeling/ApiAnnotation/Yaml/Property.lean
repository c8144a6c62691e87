import ApiAnnotation.Yaml.Cursor
import ApiAnnotation.Yaml.ScalarText
import ApiAnnotation.Yaml.Token

/-!
# Anchors, tags and directives

A node may carry an anchor and a tag, and a document may introduce shorthands for tags. All of them
stand on one line.
-/

namespace ApiAnnotation

namespace Yaml

/-! ### Names and tags -/

/-- The characters that may follow the name of an anchor. -/
def mayFollowName (cs : List Char) : Bool :=
  atGap cs || (cs.head?.map "?:,]\x7d%@\x60".toList.contains).getD true

/-- Reads the name of an anchor or of a reference to one. -/
def anchorName? (c : Cursor) : Option (List Char × Cursor) :=
  let name := c.rest.takeWhile isNameChar
  let c := c.advance name.length
  if name ≠ [] && mayFollowName c.rest then some (name, c) else none

/-- Reads a byte that is written as a percent sign and two digits of base sixteen. -/
def escapedByte? : List Char → Option (Nat × List Char)
  | '%' :: a :: b :: cs => do return ((← hexDigit? a) * 16 + (← hexDigit? b), cs)
  | _ => none

/-- The number of bytes after the first one of a character, as that one announces it. -/
def furtherBytes? (first : Nat) : Option Nat :=
  if first < 0x80 then some 0
  else if first / 32 = 6 then some 1
  else if first / 16 = 14 then some 2
  else if first / 8 = 30 then some 3
  else none

/-- Reads a number of bytes that go on a character. -/
def takeFurther? : Nat → List Char → Option (TagText × List Char)
  | 0, cs => some ([], cs)
  | n + 1, cs => do
    let (byte, cs) ← escapedByte? cs
    if byte / 64 ≠ 2 then none
    let (bytes, cs) ← takeFurther? n cs
    return (byte.toUInt8 :: bytes, cs)

/-- Reads the escapes of a character. Only the number of its bytes is looked at, not which character
they stand for or whether they stand for one at all. -/
def escapedBytes? (cs : List Char) : Option (TagText × List Char) := do
  let (first, cs) ← escapedByte? cs
  let (bytes, cs) ← takeFurther? (← furtherBytes? first) cs
  return (first.toUInt8 :: bytes, cs)

/-- Whether a character may stand in a tag; commas and square brackets only where nothing else ends
it. -/
def isTagChar (everything : Bool) (c : Char) : Bool :=
  isNameChar c || ";/?:@&=+$.!~*()".toList.contains c || c = '\'' ||
    (everything && ",[]".toList.contains c)

/-- The bytes of a tag, and the text after them. -/
def tagBytes? (everything : Bool) : Nat → List Char → Option (TagText × List Char)
  | 0, cs => some ([], cs)
  | _ + 1, [] => some ([], [])
  | fuel + 1, c :: cs =>
    if c = '%' then do
      let (bytes, cs) ← escapedBytes? (c :: cs)
      let (more, rest) ← tagBytes? everything fuel cs
      return (bytes ++ more, rest)
    else if isTagChar everything c then do
      let (bytes, rest) ← tagBytes? everything fuel cs
      return (c.toUInt8 :: bytes, rest)
    else some ([], c :: cs)

/-- Reads the handle of a tag: an exclamation mark, and a name that a second one ends. -/
def tagHandle? : List Char → Option (List Char × List Char)
  | '!' :: cs =>
    let name := cs.takeWhile isNameChar
    match cs.dropWhile isNameChar with
    | '!' :: rest => some ('!' :: name ++ ['!'], rest)
    | rest => some ('!' :: name, rest)
  | _ => none

/-- Whether a handle refers to a shorthand. -/
def isShorthand (handle : List Char) : Bool := 1 < handle.length && handle.getLast? = some '!'

/-- Reads a tag: its handle and the rest. A tag given in full has no handle, and so has the one that
is but an exclamation mark. -/
def tagParts? (cs : List Char) : Option (List Char × TagText × List Char) :=
  match cs with
  | '!' :: '<' :: cs => do
    let (suffix, rest) ← tagBytes? true cs.length cs
    match rest with
    | '>' :: rest => if suffix = [] then none else some ([], suffix.untilZero, rest)
    | _ => none
  | _ => do
    let (handle, rest) ← tagHandle? cs
    let (suffix, rest) ← tagBytes? false rest.length rest
    if isShorthand handle then
      if suffix = [] then none else some (handle, suffix.untilZero, rest)
    else
      match TagText.untilZero (.ofAscii (handle.drop 1) ++ suffix) with
      | [] => some ([], .ofAscii ['!'], rest)
      | suffix => some (['!'], suffix, rest)

/-- Reads a tag. -/
def tag? (inFlow : Bool) (c : Cursor) : Option (Token × Cursor) := do
  let (handle, suffix, rest) ← tagParts? c.rest
  if atGap rest || (inFlow && [','].isPrefixOf rest) then
    some (.tag handle suffix, c.advanceTo rest)
  else none

/-! ### Directives -/

/-- The greatest number of digits of a version number. -/
def maxVersionDigits : Nat := 9

/-- Reads a version number. -/
def versionNumber? (cs : List Char) : Option (Nat × List Char) :=
  let digits := cs.takeWhile Char.isDigit
  if digits = [] || maxVersionDigits < digits.length then none
  else some (digits.foldl (fun n c => n * 10 + (c.toNat - '0'.toNat)) 0, cs.dropWhile Char.isDigit)

/-- Reads the two numbers of a version. -/
def version? (cs : List Char) : Option (Token × List Char) := do
  let (major, cs) ← versionNumber? (cs.dropWhile isSpacing)
  match cs with
  | '.' :: cs =>
    let (minor, cs) ← versionNumber? cs
    return (.version major minor, cs)
  | _ => none

/-- Reads a shorthand: its handle and what it stands for. -/
def shorthand? (cs : List Char) : Option (Token × List Char) := do
  let (handle, cs) ← tagHandle? (cs.dropWhile isSpacing)
  if !(handle = ['!'] || isShorthand handle) then none
  if !((cs.head?.map isSpacing).getD false) then none
  let cs := cs.dropWhile isSpacing
  let (expansion, cs) ← tagBytes? true cs.length cs
  if expansion = [] || !atGap cs then none
  return (.shorthand handle expansion.untilZero, cs)

/-- Reads a directive, the percent sign being passed, with the rest of its line. -/
def directive? (c : Cursor) : Option (Token × Cursor) := do
  let name := c.rest.takeWhile isNameChar
  let rest := c.rest.dropWhile isNameChar
  if !atGap rest then none
  let (token, rest) ←
    if name = "YAML".toList then version? rest
    else if name = "TAG".toList then shorthand? rest
    else none
  let c := (c.advanceTo rest).dropWhile isSpacing
  let c := if c.startsWith ['#'] then c.dropLine else c
  if !c.atLineEnd then none
  return (token, c.takeBreak.2)

end Yaml

end ApiAnnotation
