import ApiAnnotation.Number

/-!
# Numerals

A numeral has an integer part, and it may have a fraction and an exponent. Without these two it
stands for an integer, if that fits into 64 bits. Otherwise it stands for a binary number: the
leading digits that fit into 64 bits are scaled by one power of ten, and the further digits count
for nothing but their number. This comes near to the number meant, but is not always the nearest
one.
-/

namespace ApiAnnotation

namespace Json

/-- A numeral as it is written. -/
structure Numeral where
  /-- Whether a minus sign stands in front. -/
  negative : Bool
  /-- The digits of the integer part. -/
  whole : List Char
  /-- The digits of the fraction; there are none where it is missing. -/
  fraction : List Char := []
  /-- The exponent. -/
  exponent : Option Int := none
deriving DecidableEq, Repr

namespace Numeral

/-- The number of values of a 64-bit word. -/
def wordSize : Nat := twoPow 64

/-- The greatest power of ten among the binary numbers. -/
def greatestPower : Nat := 308

/-- The value of a digit. -/
def digitValue (c : Char) : Nat := c.toNat - '0'.toNat

/-- Puts digits behind a number as long as it fits into 64 bits. The digits that do not are left. -/
def absorb (n : Nat) : List Char → Nat × List Char
  | [] => (n, [])
  | c :: cs =>
    let next := n * 10 + digitValue c
    if next < wordSize then absorb next cs else (n, c :: cs)

/-- The binary number nearest to a power of ten. -/
def powerOfTen (k : Nat) : Binary64 := .ofDecimal false 1 k

/-- A number scaled by a power of ten, or `none` where it is too large. Numbers too small to be
scaled at once are first scaled by the greatest power, and vanish if that does not suffice. -/
def scale? (n : Nat) (exponent : Int) : Option Binary64 :=
  let x := Binary64.ofNat n
  if n = 0 then some x
  else if (greatestPower : Int) < exponent then none
  else if 0 ≤ exponent then some (x.mul (powerOfTen exponent.toNat)) |>.filter (·.isFinite)
  else if -(greatestPower : Int) ≤ exponent then some (x.div (powerOfTen (-exponent).toNat))
  else if -(2 * greatestPower : Int) ≤ exponent then
    some ((x.div (powerOfTen greatestPower)).div
      (powerOfTen (-exponent - greatestPower).toNat))
  else some (.zero false)

/-- The binary number a numeral stands for, or `none` where it is too large. -/
def float? (numeral : Numeral) : Option Binary64 :=
  let (n, left) := absorb 0 numeral.whole
  let (n, leftFraction) := absorb n numeral.fraction
  let shift : Int := left.length - (numeral.fraction.length - leftFraction.length : Nat)
  (scale? n (numeral.exponent.getD 0 + shift)).map fun x =>
    if numeral.negative then x.neg else x

/-- The integer a numeral stands for, if it stands for one. Zero with a sign is not an integer. -/
def int? (numeral : Numeral) : Option Int :=
  match absorb 0 numeral.whole with
  | (n, []) =>
    if numeral.fraction ≠ [] || numeral.exponent ≠ none then none
    else if !numeral.negative then some n
    else if n = 0 || wordSize / 2 < n then none
    else some (-n)
  | _ => none

/-- The number a numeral stands for, or `none` where it is too large. -/
def value? (numeral : Numeral) : Option Number :=
  match numeral.int? with
  | some n => some (.int n)
  | none => numeral.float?.map .float

end Numeral

end Json

end ApiAnnotation
