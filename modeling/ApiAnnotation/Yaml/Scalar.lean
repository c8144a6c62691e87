import ApiAnnotation.Number
import ApiAnnotation.Json.Numeral

/-!
# Plain scalars of YAML

A scalar without quotes and without a tag stands for the value that its text looks like: nothing, a
truth value, a number, or else the text itself.

## Main definition

* `ApiAnnotation.Yaml.meaning`: what a plain scalar stands for.
-/

namespace ApiAnnotation

namespace Yaml

/-- What a plain scalar stands for. -/
inductive Meaning where
  /-- Nothing. -/
  | null
  /-- A truth value. -/
  | bool (b : Bool)
  /-- An integer of 64 bits, with or without a sign. -/
  | int (n : Int)
  /-- An integer of 128 bits that does not fit into 64. -/
  | wideInt
  /-- A binary number. -/
  | float (x : Binary64)
  /-- A text. -/
  | text
deriving DecidableEq, Repr

/-- Whether a text stands for nothing. -/
def isNull (s : String) : Bool := ["", "~", "null", "Null", "NULL"].contains s

/-- The truth value a text stands for. -/
def bool? (s : String) : Option Bool :=
  if ["true", "True", "TRUE"].contains s then some true
  else if ["false", "False", "FALSE"].contains s then some false
  else none

/-! ### Integers -/

/-- The text without a sign in front. -/
def dropSign : List Char → List Char
  | '+' :: cs => cs
  | '-' :: cs => cs
  | cs => cs

/-- Whether a text is a run of digits that starts with a needless zero. Such a text is no number. -/
def isZeroLed (cs : List Char) : Bool :=
  match dropSign cs with
  | '0' :: c :: cs => (c :: cs).all Char.isDigit
  | _ => false

/-- The value of a digit or letter as a digit. -/
def digitValue? (c : Char) : Option Nat :=
  if c.isDigit then some (c.toNat - '0'.toNat)
  else if 'a' ≤ c && c ≤ 'z' then some (c.toNat - 'a'.toNat + 10)
  else if 'A' ≤ c && c ≤ 'Z' then some (c.toNat - 'A'.toNat + 10)
  else none

/-- The natural that a run of digits of a base stands for. -/
def natural? (base : Nat) (cs : List Char) : Option Nat :=
  if cs = [] then none
  else cs.foldlM (fun n c => do
    let d ← digitValue? c
    if d < base then some (n * base + d) else none) 0

/-- The natural that a text without a sign stands for. The base may be given in front. -/
def magnitude? (cs : List Char) : Option Nat :=
  match cs with
  | '0' :: 'x' :: digits => natural? 16 digits
  | '0' :: 'o' :: digits => natural? 8 digits
  | '0' :: 'b' :: digits => natural? 2 digits
  | _ => if isZeroLed cs then none else natural? 10 cs

/-- The integer that a text stands for. -/
def int? : List Char → Option Int
  | '-' :: cs => (magnitude? cs).map fun n => -(n : Int)
  | '+' :: cs => (magnitude? cs).map fun n => (n : Int)
  | cs => (magnitude? cs).map fun n => (n : Int)

/-- Whether an integer fits into a number of bits, with or without a sign. -/
def fits (bits : Nat) (n : Int) : Bool := -(twoPow (bits - 1) : Int) ≤ n && n < twoPow bits

/-! ### Binary numbers -/

/-- The binary number of digits, a fraction and an exponent. -/
def decimal? (negative : Bool) (cs : List Char) : Option Binary64 :=
  let whole := cs.takeWhile Char.isDigit
  let cs := cs.dropWhile Char.isDigit
  let (fraction, cs) := match cs with
    | '.' :: cs => (cs.takeWhile Char.isDigit, cs.dropWhile Char.isDigit)
    | cs => ([], cs)
  let exponent? : Option Int := match cs with
    | [] => some 0
    | c :: cs =>
      if c ≠ 'e' && c ≠ 'E' then none
      else match cs with
        | '-' :: cs => (natural? 10 cs).map fun n => -(n : Int)
        | '+' :: cs => (natural? 10 cs).map fun n => (n : Int)
        | cs => (natural? 10 cs).map fun n => (n : Int)
  match exponent?, natural? 10 (whole ++ fraction) with
  | some exponent, some digits =>
    some (.ofDecimal negative digits (exponent - fraction.length))
  | _, _ => none

/-- The binary number that a text stands for. Digits beyond all binary numbers stand for none. -/
def float? (s : String) : Option Binary64 :=
  if [".inf", ".Inf", ".INF", "+.inf", "+.Inf", "+.INF"].contains s then some (.infinite false)
  else if ["-.inf", "-.Inf", "-.INF"].contains s then some (.infinite true)
  else if [".nan", ".NaN", ".NAN"].contains s then some .nan
  else
    let finite := match s.toList with
      | '-' :: cs => decimal? true cs
      | '+' :: cs => decimal? false cs
      | cs => decimal? false cs
    finite.filter (·.isFinite)

/-- What a plain scalar stands for. -/
def meaning (s : String) : Meaning :=
  if isNull s then .null
  else match bool? s with
    | some b => .bool b
    | none =>
      match (int? s.toList).filter (fits 128) with
      | some n => if fits 64 n then .int n else .wideInt
      | none =>
        if isZeroLed s.toList then .text
        else match float? s with
          | some x => .float x
          | none => .text

end Yaml

end ApiAnnotation
