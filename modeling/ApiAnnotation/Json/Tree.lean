import ApiAnnotation.Fault
import ApiAnnotation.Json
import ApiAnnotation.Json.Numeral
import ApiAnnotation.Text.Position

/-!
# Reading JSON text

A text is read into a tree that also shows where it goes wrong: reading stops at the first fault,
and the tree ends there. Which fault is told depends on what is asked of the tree, since the shape
of the parts in front of the fault may be wrong already, and since values that nobody asks for are
read less strictly than the others. So a fault is noted twice, as it counts for a value that is
kept and for one that is skipped.

## Main definitions

* `ApiAnnotation.Json.Tree`: what was read of a text.
* `ApiAnnotation.Json.Tree.ofText`: reads a text.
-/

namespace ApiAnnotation

namespace Json

/-- The point at which a text goes wrong. -/
structure Break where
  /-- The fault, if the value it lies in is kept. -/
  kept : Fault
  /-- The fault, if the value it lies in is skipped. -/
  skipped : Fault
deriving DecidableEq, Repr

/-- A fault that counts for kept and skipped values alike. -/
def Break.both (fault : Fault) : Break := ⟨fault, fault⟩

/-- A number that breaks off: at the end of the text only those who want it look for more. -/
def Break.ofNumber : List Char → Break
  | [] => ⟨.ended, .malformed⟩
  | _ :: _ => .both .malformed

/-- What was read of the text of a value. -/
inductive Tree where
  /-- The value `null`. -/
  | null
  /-- One of the truth values. -/
  | bool (b : Bool)
  /-- A number; there is none if the numeral is too large. -/
  | number (n : Option Number)
  /-- A text; there is none if it escapes half a pair of code units. -/
  | string (s : Option String)
  /-- The items of a list, and the fault after them. -/
  | array (items : List Tree) (close : Option Break)
  /-- The members of an object, and the fault after them. A key may fail to be a text. -/
  | object (members : List (Option String × Tree)) (close : Option Break)
  /-- A value that breaks off. -/
  | broken (stop : Break)
deriving Repr, Inhabited

/-! ### Texts in quotes -/

/-- A piece of a text in quotes. -/
inductive Piece where
  /-- A character. -/
  | char (c : Char)
  /-- Half a pair of code units. -/
  | half (unit : Nat)
deriving DecidableEq, Repr

namespace Piece

/-- Whether a code unit is the first of a pair. -/
def isLead (unit : Nat) : Bool := 0xD800 ≤ unit && unit < 0xDC00

/-- Whether a code unit is the second of a pair. -/
def isTrail (unit : Nat) : Bool := 0xDC00 ≤ unit && unit < 0xE000

/-- The piece that a code unit stands for. -/
def ofUnit (unit : Nat) : Piece :=
  if isLead unit || isTrail unit then half unit else char (Char.ofNat unit)

/-- The character of a pair of code units. -/
def pair (lead trail : Nat) : Char :=
  Char.ofNat (0x10000 + (lead - 0xD800) * 0x400 + (trail - 0xDC00))

/-- The text that the pieces make up, or `none` where a half lacks the other. -/
def join? : List Piece → Option (List Char)
  | [] => some []
  | char c :: rest => (join? rest).map (c :: ·)
  | half lead :: half trail :: rest =>
    if isLead lead && isTrail trail then (join? rest).map (pair lead trail :: ·) else none
  | half _ :: _ => none

/-- The pieces without a lead half at their end, which the other half may follow. -/
def dropOpenHalf (pieces : List Piece) : List Piece :=
  match pieces.getLast? with
  | some (half unit) => if isLead unit then pieces.dropLast else pieces
  | _ => pieces

end Piece

/-- The value of a hexadecimal digit. -/
def hexValue? (c : Char) : Option Nat :=
  if '0' ≤ c && c ≤ '9' then some (c.toNat - '0'.toNat)
  else if 'a' ≤ c && c ≤ 'f' then some (c.toNat - 'a'.toNat + 10)
  else if 'A' ≤ c && c ≤ 'F' then some (c.toNat - 'A'.toNat + 10)
  else none

/-- The code unit of four hexadecimal digits. -/
def unit? (a b c d : Char) : Option Nat := do
  let a ← hexValue? a
  let b ← hexValue? b
  let c ← hexValue? c
  let d ← hexValue? d
  return ((a * 16 + b) * 16 + c) * 16 + d

/-- The character that a letter after a backslash stands for. -/
def unescape? (c : Char) : Option Char :=
  if c = '"' || c = '\\' || c = '/' then some c
  else if c = 'b' then some '\x08'
  else if c = 'f' then some '\x0c'
  else if c = 'n' then some '\n'
  else if c = 'r' then some '\r'
  else if c = 't' then some '\t'
  else none

/-- Reads the text after an opening quote: its pieces, and either what stands after the closing
quote or the fault that comes first. -/
def readPieces : List Char → List Piece × Except Fault (List Char)
  | [] => ([], .error .ended)
  | '"' :: rest => ([], .ok rest)
  | '\\' :: rest =>
    match rest with
    | [] => ([], .error .ended)
    | 'u' :: a :: b :: c :: d :: rest =>
      match unit? a b c d with
      | some unit => let (pieces, stop) := readPieces rest; (.ofUnit unit :: pieces, stop)
      | none => ([], .error .malformed)
    | 'u' :: digits => ([], .error (if byteLength digits < 4 then .ended else .malformed))
    | c :: rest =>
      match unescape? c with
      | some c => let (pieces, stop) := readPieces rest; (.char c :: pieces, stop)
      | none => ([], .error .malformed)
  | c :: rest =>
    if c < ' ' then ([], .error .malformed)
    else let (pieces, stop) := readPieces rest; (.char c :: pieces, stop)

/-- Reads the text after an opening quote: the text, or `none` for a half without the other, and
what stands after the closing quote. -/
def readQuoted (cs : List Char) : Except Break (Option String × List Char) :=
  match readPieces cs with
  | (pieces, .ok rest) => .ok ((Piece.join? pieces).map String.ofList, rest)
  | (pieces, .error fault) =>
    let whole := (Piece.join? (Piece.dropOpenHalf pieces)).isSome
    .error ⟨if whole then fault else .malformed, fault⟩

/-! ### Numbers -/

/-- Reads the exponent of a numeral, if there is one. -/
def readExponent : List Char → Except Break (Option Int × List Char)
  | [] => .ok (none, [])
  | c :: cs =>
    if c = 'e' || c = 'E' then
      let (negative, cs) := match cs with
        | '-' :: cs => (true, cs)
        | '+' :: cs => (false, cs)
        | cs => (false, cs)
      let digits := cs.takeWhile Char.isDigit
      let rest := cs.dropWhile Char.isDigit
      if digits = [] then .error (.ofNumber rest)
      else
        let n := digits.foldl (fun n c => n * 10 + Numeral.digitValue c) 0
        .ok (some (if negative then -n else n), rest)
    else .ok (none, c :: cs)

/-- Reads the fraction of a numeral, if there is one. -/
def readFraction : List Char → Except Break (List Char × List Char)
  | '.' :: cs =>
    let digits := cs.takeWhile Char.isDigit
    let rest := cs.dropWhile Char.isDigit
    if digits = [] then .error (.ofNumber rest) else .ok (digits, rest)
  | cs => .ok ([], cs)

/-- Reads the integer part of a numeral. A zero stands alone. -/
def readWhole (cs : List Char) : Except Break (List Char × List Char) :=
  let digits := cs.takeWhile Char.isDigit
  let rest := cs.dropWhile Char.isDigit
  match digits with
  | [] => .error (.ofNumber rest)
  | '0' :: _ :: _ => .error (.both .malformed)
  | _ => .ok (digits, rest)

/-- Reads a numeral. -/
def readNumeral (cs : List Char) : Except Break (Numeral × List Char) := do
  let (negative, cs) := match cs with
    | '-' :: cs => (true, cs)
    | cs => (false, cs)
  let (whole, cs) ← readWhole cs
  let (fraction, cs) ← readFraction cs
  let (exponent, cs) ← readExponent cs
  return ({ negative, whole, fraction, exponent }, cs)

/-! ### Values -/

/-- Whether a character is white space between the parts of a value. -/
def isSpace (c : Char) : Bool := c = ' ' || c = '\n' || c = '\t' || c = '\r'

/-- The text without the white space in front. -/
def skipSpace (cs : List Char) : List Char := cs.dropWhile isSpace

/-- The fault where something else is expected than the text at hand. -/
def faultAt : List Char → Fault
  | [] => .ended
  | _ :: _ => .malformed

/-- Reads the rest of a word. -/
def readWord (tree : Tree) : List Char → List Char → Tree × Option (List Char)
  | [], rest => (tree, some rest)
  | w :: word, cs =>
    match cs with
    | c :: rest =>
      if c = w then readWord tree word rest else (.broken (.both .malformed), none)
    | [] => (.broken (.both .ended), none)

/-- Reads a value that is neither a list nor an object. -/
def readScalar : List Char → Tree × Option (List Char)
  | 'n' :: rest => readWord .null ['u', 'l', 'l'] rest
  | 't' :: rest => readWord (.bool true) ['r', 'u', 'e'] rest
  | 'f' :: rest => readWord (.bool false) ['a', 'l', 's', 'e'] rest
  | '"' :: rest =>
    match readQuoted rest with
    | .ok (s, rest) => (.string s, some rest)
    | .error stop => (.broken stop, none)
  | c :: rest =>
    if c = '-' || c.isDigit then
      match readNumeral (c :: rest) with
      | .ok (numeral, rest) => (.number numeral.value?, some rest)
      | .error stop => (.broken stop, none)
    else (.broken (.both .malformed), none)
  | [] => (.broken (.both .ended), none)

mutual

/-- Reads a value, and gives what stands after it unless reading stopped. The fuel bounds the number
of values that are read; the length of the text suffices. -/
def readValue : Nat → List Char → Tree × Option (List Char)
  | 0, _ => (.broken (.both .ended), none)
  | fuel + 1, cs =>
    match skipSpace cs with
    | '[' :: cs =>
      match skipSpace cs with
      | ']' :: rest => (.array [] none, some rest)
      | [] => (.array [] (some (.both .ended)), none)
      | cs =>
        let (items, close, rest) := readItems fuel cs
        (.array items close, rest)
    | '\x7b' :: cs =>
      match skipSpace cs with
      | '}' :: rest => (.object [] none, some rest)
      | cs =>
        let (members, close, rest) := readMembers fuel cs
        (.object members close, rest)
    | cs => readScalar cs

/-- Reads the items of a list, one of which must come first: the items, the fault after them, and
what stands after the list unless reading stopped. -/
def readItems : Nat → List Char → List Tree × Option Break × Option (List Char)
  | 0, _ => ([], some (.both .ended), none)
  | fuel + 1, cs =>
    let (item, rest) := readValue fuel cs
    match rest.map skipSpace with
    | none => ([item], none, none)
    | some (',' :: cs) =>
      let (items, close, rest) := readItems fuel cs
      (item :: items, close, rest)
    | some (']' :: rest) => ([item], none, some rest)
    | some cs => ([item], some (.both (faultAt cs)), none)

/-- Reads the members of an object, one of which must come first: the members, the fault after them,
and what stands after the object unless reading stopped. -/
def readMembers :
    Nat → List Char → List (Option String × Tree) × Option Break × Option (List Char)
  | 0, _ => ([], some (.both .ended), none)
  | fuel + 1, cs =>
    match skipSpace cs with
    | '"' :: cs =>
      match readQuoted cs with
      | .error stop => ([], some stop, none)
      | .ok (key, cs) =>
        match skipSpace cs with
        | ':' :: cs =>
          let (value, rest) := readValue fuel cs
          match rest.map skipSpace with
          | none => ([(key, value)], none, none)
          | some (',' :: cs) =>
            let (members, close, rest) := readMembers fuel cs
            ((key, value) :: members, close, rest)
          | some ('}' :: rest) => ([(key, value)], none, some rest)
          | some cs => ([(key, value)], some (.both (faultAt cs)), none)
        | cs => ([(key, .broken (.both (faultAt cs)))], none, none)
    | cs => ([], some (.both (faultAt cs)), none)

end

/-- Reads a text: the tree of its value, and whether anything but white space stands after it. -/
def Tree.ofText (text : String) : Tree × Bool :=
  let (tree, rest) := readValue (2 * text.length + 1) text.toList
  (tree, (rest.map skipSpace).any (· ≠ []))

end Json

end ApiAnnotation
