import ApiAnnotation.Proofs.Block.BraceGroup

/-!
# Reading a directive by offsets

A directive can be read without taking its text apart: an offset is found, by looking for a character
or by counting braces, and the text is cut there (`ApiAnnotation.ByOffset.directive`). Every cut must
be at a boundary, or it is a fault (`ApiAnnotation.cutAtOffset`). That none of them is, in whatever
text, comes from how the offsets are found: each is the number of bytes in front of a character that
was seen there, or behind it.

So reading by offsets always gives a directive, and the same one as reading the characters.

## Main statements

* `ApiAnnotation.ByOffset.braced_eq`, `ApiAnnotation.ByOffset.directive_eq`: the two ways of reading
  agree.
* `ApiAnnotation.readsGroup`: how a type in front of a text is read.
-/

namespace ApiAnnotation

variable {cs : List Char}

/-! ### Cuts -/

/-- The text cut at an offset, which has to be one of its boundaries. -/
def cutAtOffset (offset : Nat) (cs : List Char) : Except ReadingFault (List Char × List Char) :=
  if IsBoundary (String.ofList cs) offset then
    .ok (beginningBefore offset cs, cs.drop (beginningBefore offset cs).length)
  else .error (.offBoundary offset)

/-- The text between two offsets. -/
def sliceAtOffsets (start stop : Nat) (cs : List Char) : Except ReadingFault (List Char) := do
  let (front, _) ← cutAtOffset stop cs
  let (_, slice) ← cutAtOffset start front
  return slice

/-- Reading goes on with what was read, if there was no fault. -/
theorem ReadingFault.ok_bind {α β : Type} (a : α) (next : α → Except ReadingFault β) :
    (Except.ok a >>= next) = next a := rfl

/-- **A text is cut behind a front of it without fault.** -/
theorem cutAtOffset_append (before after : List Char) :
    cutAtOffset (byteLength before) (before ++ after) = .ok (before, after) := by
  have hboundary : IsBoundary (String.ofList (before ++ after)) (byteLength before) :=
    isBoundary_iff.mpr ⟨before, after, String.toList_ofList, rfl⟩
  rw [cutAtOffset, if_pos hboundary, beginningBefore_append, List.drop_left]

theorem sliceAtOffsets_append (before slice after : List Char) :
    sliceAtOffsets (byteLength before) (byteLength (before ++ slice)) (before ++ slice ++ after) =
      .ok slice := by
  simp only [sliceAtOffsets, cutAtOffset_append, ReadingFault.ok_bind]
  rfl

/-- **A text is cut at the first character with a property without fault.** -/
theorem cutAtOffset_offsetOf (p : Char → Bool) (cs : List Char) :
    cutAtOffset (offsetOf p cs) cs = .ok (cs.takeWhile (!p ·), cs.dropWhile (!p ·)) := by
  have hcut := cutAtOffset_append (cs.takeWhile (!p ·)) (cs.dropWhile (!p ·))
  rwa [← offsetOf_eq, List.takeWhile_append_dropWhile] at hcut

/-! ### Reading -/

namespace ByOffset

/-- Reads the type in front of a text. -/
def braced (cs : List Char) : Except ReadingFault (Option (List Char × List Char)) := do
  if cs.head? = some '\x7b' then
    match (← BraceCount.ofText cs).offset? with
    | none => return none
    | some offset =>
      let inside ← sliceAtOffsets 1 offset cs
      let (_, after) ← cutAtOffset (offset + 1) cs
      return some (Text.trim inside, after)
  else return none

/-- Takes the type off the text after a title. -/
def readType (title : String) (cs : List Char) :
    Except ReadingFault (Option TypeExpr × List Char) := do
  if takesType title then
    match ← braced (Text.trimStart cs) with
    | some (inside, after) => return (some (TypeExpr.ofText inside), after)
    | none => return (none, cs)
  else return (none, cs)

/-- Takes the name off the text after a title and a type. -/
def readName (title : String) (cs : List Char) : Except ReadingFault (List Char × List Char) :=
  if takesName title then cutAtOffset (offsetOf isBlank (Text.trimStart cs)) (Text.trimStart cs)
  else .ok ([], cs)

/-- A description without the dash in front, where white space follows the dash. -/
def withoutDash : List Char → Except ReadingFault (List Char)
  | '-' :: c :: cs =>
    if isBlank c then do
      let (_, after) ← cutAtOffset (1 + c.utf8Size) ('-' :: c :: cs)
      return after
    else .ok ('-' :: c :: cs)
  | cs => .ok cs

/-- Reads the text of a directive. -/
def directive (text : List Char) : Except ReadingFault Directive := do
  let text := Text.dropLeading '@' text
  let (title, rest) ← cutAtOffset (offsetOf (!isTitleChar ·) text) text
  let title := String.ofList title
  let (type, afterType) ← readType title rest
  let (name, afterName) ← readName title afterType
  let description ← withoutDash (Text.trim afterName)
  return { title, type, name := String.ofList name, description := String.ofList description }

/-! ### What is read -/

/-- The slice within the braces, and the cut behind them. -/
theorem slice_and_cut (inside after : List Char) :
    sliceAtOffsets 1 (1 + byteLength inside) ('\x7b' :: (inside ++ '}' :: after)) = .ok inside ∧
      cutAtOffset (1 + byteLength inside + 1) ('\x7b' :: (inside ++ '}' :: after)) =
        .ok ('\x7b' :: (inside ++ ['}']), after) := by
  constructor
  · exact sliceAtOffsets_append ['\x7b'] inside ('}' :: after)
  · have hcut := cutAtOffset_append ('\x7b' :: (inside ++ ['}'])) after
    have hbytes : byteLength ('\x7b' :: (inside ++ ['}'])) = 1 + byteLength inside + 1 := by
      rw [byteLength_cons, byteLength_append, ← Nat.add_assoc]
      rfl
    rwa [hbytes, List.cons_append, List.append_assoc] at hcut

/-- **A type is read by offsets without fault**, as it is read off the characters. -/
theorem braced_eq (cs : List Char) : braced cs = .ok (braced? cs) := by
  rcases cs with _ | ⟨c, rest⟩
  · rfl
  rw [braced, braced?]
  by_cases hc : c = '\x7b'
  · subst hc
    obtain ⟨s, hs, -, hoffset⟩ := BraceCount.exists_ofText_cons rest
    rw [if_pos List.head?_cons, if_pos rfl, hs, ReadingFault.ok_bind, hoffset]
    cases hcut : untilClosed? 0 rest with
    | none => rfl
    | some cut =>
      obtain ⟨inside, after⟩ := cut
      obtain rfl : rest = inside ++ '}' :: after := eq_append_of_mem_untilClosed? 0 rest _ hcut
      obtain ⟨hslice, hafter⟩ := slice_and_cut inside after
      simp only [Option.map_some, hslice, hafter, ReadingFault.ok_bind]
      rfl
  · rw [if_neg (by simpa using hc), if_neg hc]
    rfl

theorem readType_eq (title : String) (cs : List Char) :
    readType title cs = .ok (takeType title cs) := by
  rw [readType, takeType]
  by_cases htitle : takesType title = true
  · rw [if_pos htitle, if_pos htitle, braced_eq, ReadingFault.ok_bind]
    cases braced? (Text.trimStart cs) <;> rfl
  · rw [if_neg htitle, if_neg htitle]
    rfl

theorem readName_eq (title : String) (cs : List Char) :
    readName title cs = .ok (takeName title cs) := by
  rw [readName, takeName]
  split
  · exact cutAtOffset_offsetOf isBlank (Text.trimStart cs)
  · rfl

theorem withoutDash_eq (cs : List Char) : withoutDash cs = .ok (stripDash cs) := by
  fun_cases stripDash cs with
  | case1 c cs hc =>
    have hcut : cutAtOffset (1 + c.utf8Size) ('-' :: c :: cs) = _ := cutAtOffset_append ['-', c] cs
    rw [withoutDash, if_pos hc, hcut]
    rfl
  | case2 c cs hc => rw [withoutDash, if_neg hc]
  | case3 =>
    rw [withoutDash]
    assumption

/-- **A directive is read by offsets without fault**, as it is read off the characters. -/
theorem directive_eq (text : List Char) : directive text = .ok (Directive.ofText text) := by
  simp only [directive, cutAtOffset_offsetOf, readType_eq, readName_eq, withoutDash_eq,
    ReadingFault.ok_bind, Bool.not_not]
  rfl

end ByOffset

/-! ### How a type in front of a text is read -/

/-- **A type is read off a text as the group in front of it**, by a count that is never negative and
by cuts that are all at boundaries. -/
structure ReadsGroup (cs : List Char) : Prop where
  /-- There is a group in front if the text starts with a brace and some front of it closes as many
  braces as it opens. -/
  exists_iff : (∃ group, IsGroup cs group) ↔ cs.head? = some '\x7b' ∧
    ∃ front, front <+: cs ∧ front ≠ [] ∧ front.count '\x7b' = front.count '}'
  /-- It is read without its first and its last character, trimmed, and what follows is left. -/
  group : ∀ group after, cs = group ++ after → IsGroup cs group →
    braced? cs = some (Text.trim group.tail.dropLast, after)
  /-- Without a group nothing is read. -/
  no_group : (¬∃ group, IsGroup cs group) → braced? cs = none
  /-- In a text that starts with a brace the count is without fault up to every character, and says
  how many braces are open, or where the brace in front was closed. -/
  counted : cs.head? = some '\x7b' → ∀ read, read <+: cs →
    ∃ s, BraceCount.ofText read = .ok s ∧ s.Says read
  /-- The type is read by offsets without fault. -/
  braced : ByOffset.braced cs = .ok (braced? cs)
  /-- And so is a directive. -/
  directive : ByOffset.directive cs = .ok (Directive.ofText cs)

/-- **How a type in front of any text is read.** -/
theorem readsGroup (cs : List Char) : ReadsGroup cs where
  exists_iff := exists_isGroup_iff cs
  group := by
    rintro group after rfl hgroup
    exact braced?_of_isGroup hgroup
  no_group := braced?_eq_none
  counted := by
    rintro hopened read ⟨rest, rfl⟩
    refine BraceCount.exists_ofText fun c hc => ?_
    obtain ⟨read, rfl⟩ := List.head?_eq_some_iff.mp hc
    exact Option.some.inj hopened
  braced := ByOffset.braced_eq cs
  directive := ByOffset.directive_eq cs

/-- A group with another one in it, and characters of several bytes. -/
example : braced? "\x7bé: \x7b→\x7d\x7d 次".toList = some ("é: \x7b→\x7d".toList, " 次".toList) :=
  rfl

end ApiAnnotation
