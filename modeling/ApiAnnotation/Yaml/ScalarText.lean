import ApiAnnotation.Yaml.Cursor

/-!
# The texts of scalars

A scalar is written plainly, between quotes, or as a block of lines. Within plain and quoted
scalars, gaps that hold line breaks are folded.

## Main definitions

* `ApiAnnotation.Yaml.plain?`: reads a plain scalar.
* `ApiAnnotation.Yaml.quoted?`: reads a scalar between quotes, single or double.
* `ApiAnnotation.Yaml.blockText?`: reads a block of lines, literal or folded.
-/

namespace ApiAnnotation

namespace Yaml

/-! ### Plain scalars -/

/-- The word of a plain scalar at the front of a text. In a flow collection a colon must not stand
before an indicator. -/
def plainWord? (inFlow : Bool) : List Char → Option (List Char)
  | [] => some []
  | c :: cs =>
    if isGap c then some []
    else if inFlow && c = ':' &&
        (cs.head?.map fun d => isFlowIndicator d || d = '?').getD false then
      none
    else if (c = ':' && atGap cs) || (inFlow && isFlowIndicator c) then some []
    else (plainWord? inFlow cs).map (c :: ·)

/-- Reads the words of a plain scalar whose lines are indented to the given column, a gap before
them being passed: the text, whether it is followed by a line break, and the place after it. -/
def plainFrom? (inFlow : Bool) (indent : Int) :
    Nat → Gap → Cursor → Option (List Char × Bool × Cursor)
  | 0, gap, c => some ([], gap.broken, c)
  | fuel + 1, gap, c =>
    if c.atDocumentStart || c.atDocumentEnd || c.startsWith ['#'] then some ([], gap.broken, c)
    else do
      let word ← plainWord? inFlow c.rest
      let (text, gap) : List Char × Gap := if word = [] then ([], gap) else (gap.text ++ word, {})
      let c := c.advance word.length
      if !((c.rest.head?.map fun x => isSpacing x || isBreak x).getD false) then
        return (text, gap.broken, c)
      let (gap, c) ← gap.take? indent c
      if !inFlow && c.column < indent then return (text, gap.broken, c)
      let (more, broken, c) ← plainFrom? inFlow indent fuel gap c
      return (text ++ more, broken, c)

/-- Reads a plain scalar. -/
def plain? (inFlow : Bool) (indent : Int) (c : Cursor) : Option (List Char × Bool × Cursor) :=
  plainFrom? inFlow indent (c.rest.length + 1) {} c

/-! ### Quoted scalars -/

/-- The word of a scalar between single quotes, and the number of characters it is written with. -/
def singleWord : List Char → List Char × Nat
  | [] => ([], 0)
  | '\'' :: '\'' :: cs => let (word, n) := singleWord cs; ('\'' :: word, n + 2)
  | c :: cs =>
    if c = '\'' || isGap c then ([], 0)
    else let (word, n) := singleWord cs; (c :: word, n + 1)

/-- The characters that single letters after a backslash stand for. -/
def namedEscapes : List (Char × Nat) :=
  [('0', 0x00), ('a', 0x07), ('b', 0x08), ('t', 0x09), ('\t', 0x09), ('n', 0x0A), ('v', 0x0B),
    ('f', 0x0C), ('r', 0x0D), ('e', 0x1B), (' ', 0x20), ('"', 0x22), ('/', 0x2F), ('\\', 0x5C),
    ('N', 0x85), ('_', 0xA0), ('L', 0x2028), ('P', 0x2029)]

/-- The number of digits after a letter that introduces a code point. -/
def codeWidths : List (Char × Nat) := [('x', 2), ('u', 4), ('U', 8)]

/-- The value of a digit in base sixteen. -/
def hexDigit? (c : Char) : Option Nat :=
  if c.isDigit then some (c.toNat - '0'.toNat)
  else if 'a' ≤ c && c ≤ 'f' then some (c.toNat - 'a'.toNat + 10)
  else if 'A' ≤ c && c ≤ 'F' then some (c.toNat - 'A'.toNat + 10)
  else none

/-- The character of a code point in base sixteen. -/
def codePoint? (width : Nat) (digits : List Char) : Option Char := do
  if digits.length < width then none
  let n ← (digits.take width).foldlM (fun n c => (hexDigit? c).map (n * 16 + ·)) 0
  if n < 0xD800 || (0xE000 ≤ n && n ≤ 0x10FFFF) then some (Char.ofNat n) else none

/-- Reads what stands after a backslash: the character it stands for, and the number of characters
it is written with. -/
def escape? : List Char → Option (Char × Nat)
  | [] => none
  | c :: cs =>
    match namedEscapes.lookup c, codeWidths.lookup c with
    | some n, _ => some (Char.ofNat n, 1)
    | none, some width => (codePoint? width cs).map fun x => (x, width + 1)
    | none, none => none

/-- The word of a scalar between double quotes, and the number of characters it is written with. A
backslash at the end of a line ends the word. -/
def doubleWord? : Nat → List Char → Option (List Char × Nat)
  | 0, _ => some ([], 0)
  | _ + 1, [] => some ([], 0)
  | fuel + 1, c :: cs =>
    if c = '"' || isGap c then some ([], 0)
    else if c = '\\' then
      if (cs.head?.map isBreak).getD false then some ([], 0)
      else do
        let (x, n) ← escape? cs
        let (word, more) ← doubleWord? fuel (cs.drop n)
        return (x :: word, more + n + 1)
    else do
      let (word, n) ← doubleWord? fuel cs
      return (c :: word, n + 1)

/-- Reads the rest of a quoted scalar: its text, and the place after the closing quote. Every word
is followed by that quote or by a gap, so the fuel is never less than the text that is left. -/
def quotedFrom? (quote : Char) : Nat → Cursor → Option (List Char × Cursor)
  | 0, _ => none
  | fuel + 1, c =>
    if c.atDocumentStart || c.atDocumentEnd || c.rest = [] then none
    else do
      let (word, n) ←
        if quote = '"' then doubleWord? (fuel + 1) c.rest else some (singleWord c.rest)
      let c := c.advance n
      let (gap, c) : Gap × Cursor :=
        if quote = '"' && c.startsWith ['\\'] then ({ broken := true }, (c.advance 1).takeBreak.2)
        else ({}, c)
      if c.startsWith [quote] then return (word, c.advance 1)
      let (gap, c) ← gap.take? 0 c
      let (more, c) ← quotedFrom? quote fuel c
      return (word ++ gap.text ++ more, c)

/-- Reads a quoted scalar, the opening quote being passed. -/
def quoted? (quote : Char) (c : Cursor) : Option (List Char × Cursor) :=
  quotedFrom? quote (c.rest.length + 1) c

/-! ### Blocks of lines -/

/-- What becomes of the line breaks at the end of a block. -/
inductive Chomping where
  /-- None stays. -/
  | strip
  /-- The first one stays. -/
  | clip
  /-- All stay. -/
  | keep
deriving DecidableEq, Repr

/-- The head of a block: its chomping and the indentation it states. -/
structure BlockHead where
  /-- The chomping. -/
  chomping : Chomping := .clip
  /-- The indentation, relative to the block around it. -/
  increment : Option Nat := none

/-- Reads a sign of chomping. -/
def chomping? : List Char → Option (Chomping × List Char)
  | '+' :: cs => some (.keep, cs)
  | '-' :: cs => some (.strip, cs)
  | _ => none

/-- Reads a digit of indentation, which must not be zero. -/
def increment? : List Char → Option (Option Nat × List Char)
  | [] => some (none, [])
  | c :: cs =>
    if c = '0' then none
    else if c.isDigit then some (some (c.toNat - '0'.toNat), cs)
    else some (none, c :: cs)

/-- Reads the head of a block: chomping and indentation, in either order. -/
def blockHead? (cs : List Char) : Option (BlockHead × List Char) :=
  match chomping? cs with
  | some (chomping, cs) => do
    let (increment, cs) ← increment? cs
    return ({ chomping, increment }, cs)
  | none => do
    let (increment, cs) ← increment? cs
    match increment, chomping? cs with
    | some _, some (chomping, cs) => return ({ chomping, increment }, cs)
    | _, _ => return ({ increment }, cs)

/-- Passes over at most the given number of empty lines of a block. -/
def emptyLinesUpTo? (indent : Option Nat) :
    Nat → List Char → Nat → Cursor → Option (List Char × Nat × Cursor)
  | 0, breaks, widest, c => some (breaks, widest, c)
  | fuel + 1, breaks, widest, c =>
    let blanks := (c.rest.takeWhile (· = ' ')).length
    let c := c.advance ((indent.map fun n => min blanks (n - c.column)).getD blanks)
    let widest := max widest c.column
    let inside := (indent.map fun n => decide (c.column < n)).getD true
    if inside && c.startsWith ['\t'] then none
    else if c.atBreak then
      let (text, c) := c.takeBreak
      emptyLinesUpTo? indent fuel (breaks ++ text) widest c
    else some (breaks, widest, c)

/-- Passes over the empty lines of a block whose indentation is known, or `none` while it is not:
their breaks, the greatest column reached, and the place after them. -/
def emptyLines? (indent : Option Nat) (c : Cursor) : Option (List Char × Nat × Cursor) :=
  emptyLinesUpTo? indent ((c.rest.takeWhile isGap).length + 1) [] 0 c

/-- The state between two lines of a block. -/
structure BlockState where
  /-- The break that ends the last line. -/
  lastBreak : List Char := []
  /-- The breaks of the empty lines after it. -/
  moreBreaks : List Char := []
  /-- Whether the last line started with a space or a tab. -/
  spaced : Bool := false

/-- Reads the lines of a block: their text without the breaks at its end, the state after them, and
the place. In a folded block a break between two lines that do not start with a space counts for a
space. -/
def blockLines? (folded : Bool) (indent : Nat) :
    Nat → BlockState → Cursor → Option (List Char × BlockState × Cursor)
  | 0, state, c => some ([], state, c)
  | fuel + 1, state, c =>
    if c.column ≠ indent || c.rest = [] then some ([], state, c)
    else do
      let spaced := (c.rest.head?.map isSpacing).getD false
      let joint :=
        if folded && state.lastBreak = ['\n'] && !state.spaced && !spaced then
          if state.moreBreaks = [] then [' '] else []
        else state.lastBreak
      let line := c.rest.takeWhile (!isBreak ·)
      let (lastBreak, c) := (c.advance line.length).takeBreak
      let (moreBreaks, _, c) ← emptyLines? (some indent) c
      let (more, last, c) ← blockLines? folded indent fuel { lastBreak, moreBreaks, spaced } c
      return (joint ++ state.moreBreaks ++ line ++ more, last, c)

/-- Reads a block of lines, the indicator being passed; `around` is the indentation of the block
around it, or negative. Gives the text and the place after it. -/
def blockText? (folded : Bool) (around : Int) (c : Cursor) : Option (List Char × Cursor) := do
  let (head, rest) ← blockHead? c.rest
  let c := (c.advanceTo rest).dropWhile isSpacing
  let c := if c.startsWith ['#'] then c.dropLine else c
  if !c.atLineEnd then none
  let c := c.takeBreak.2
  let stated := head.increment.map fun n => (max around 0).toNat + n
  let (moreBreaks, widest, c) ← emptyLines? stated c
  let indent := stated.getD (max (max widest (around + 1).toNat) 1)
  let (text, state, c) ← blockLines? folded indent (c.rest.length + 1) { moreBreaks } c
  let tail := match head.chomping with
    | .strip => []
    | .clip => state.lastBreak
    | .keep => state.lastBreak ++ state.moreBreaks
  return (text ++ tail, c)

end Yaml

end ApiAnnotation
