/-!
# Binary numbers of 64 bits

A finite number is `mantissa * 2 ^ exponent` with a sign. All arithmetic is exact arithmetic on
naturals followed by one rounding, `ApiAnnotation.Binary64.ofRatio`: to the nearest number, and of
two equally near ones to the one with the even mantissa.
-/

namespace ApiAnnotation

/-- A binary number of 64 bits. Zero has a sign. -/
inductive Binary64 where
  /-- The number `mantissa * 2 ^ exponent`, negated if `negative`. -/
  | finite (negative : Bool) (mantissa : Nat) (exponent : Int)
  /-- One of the two infinities. -/
  | infinite (negative : Bool)
  /-- No number. -/
  | nan
deriving DecidableEq, Repr, Inhabited

/-- A power of two. -/
def twoPow (n : Nat) : Nat := Nat.pow 2 n

/-- A power of ten. -/
def tenPow (n : Nat) : Nat := Nat.pow 10 n

namespace Binary64

/-- The number of bits of a full mantissa. -/
def mantissaBits : Nat := 53

/-- The exponent of the numbers next to zero. -/
def leastExponent : Int := -1074

/-- The exponent of the largest numbers. -/
def greatestExponent : Int := 971

/-- Zero, with a sign. -/
def zero (negative : Bool) : Binary64 := finite negative 0 leastExponent

/-- Whether the number is one, and not infinite. -/
def isFinite : Binary64 → Bool
  | finite .. => true
  | _ => false

/-- The number with the other sign. -/
def neg : Binary64 → Binary64
  | finite negative mantissa exponent => finite (!negative) mantissa exponent
  | infinite negative => infinite (!negative)
  | nan => nan

/-- The natural nearest to `num / den`, the even one of two equally near. -/
def nearestEven (num den : Nat) : Nat :=
  let q := num / den
  let twice := 2 * (num % den)
  if twice < den then q
  else if den < twice then q + 1
  else if q % 2 = 0 then q else q + 1

/-- The natural nearest to `num / den / 2 ^ e`. -/
def nearestScaled (num den : Nat) (e : Int) : Nat :=
  nearestEven (num * twoPow (-e).toNat) (den * twoPow e.toNat)

/-- The exponent at which `num / den` has a full mantissa, or the least one if that is larger. -/
def scaleOf (num den : Nat) : Int :=
  let guess : Int := (Nat.log2 num : Int) - Nat.log2 den - (mantissaBits - 1)
  let reached := den * twoPow (mantissaBits - 1) * twoPow guess.toNat ≤ num * twoPow (-guess).toNat
  max leastExponent (if reached then guess else guess - 1)

/-- The number nearest to `num / den`, for a positive `den`. -/
def ofRatio (negative : Bool) (num den : Nat) : Binary64 :=
  if num = 0 then zero negative
  else
    let e := scaleOf num den
    let m := nearestScaled num den e
    let (m, e) := if m = twoPow mantissaBits then (twoPow (mantissaBits - 1), e + 1) else (m, e)
    if greatestExponent < e then infinite negative else finite negative m e

/-- The number nearest to a natural. -/
def ofNat (n : Nat) : Binary64 := ofRatio false n 1

/-- The number nearest to `digits * 10 ^ exponent`. Beyond the powers that a 64-bit number can
come near to, the answer does not depend on the digits, and no power is computed. -/
def ofDecimal (negative : Bool) (digits : Nat) (exponent : Int) : Binary64 :=
  let size := Nat.log2 digits / 4
  if digits = 0 then zero negative
  else if 400 < exponent then infinite negative
  else if exponent + 4 * size + 4 < -400 then zero negative
  else ofRatio negative (digits * tenPow exponent.toNat) (tenPow (-exponent).toNat)

/-- The product of two finite numbers, rounded. -/
def mul : Binary64 → Binary64 → Binary64
  | finite s m e, finite s' m' e' =>
    ofRatio (s != s') (m * m' * twoPow (e + e').toNat) (twoPow (-(e + e')).toNat)
  | _, _ => nan

/-- The quotient of two finite numbers, the second not being zero, rounded. -/
def div : Binary64 → Binary64 → Binary64
  | finite s m e, finite s' m' e' =>
    ofRatio (s != s') (m * twoPow (e - e').toNat) (m' * twoPow (e' - e).toNat)
  | _, _ => nan

end Binary64

end ApiAnnotation
