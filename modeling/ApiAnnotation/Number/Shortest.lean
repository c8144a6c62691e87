import ApiAnnotation.Number.Binary64

/-!
# The fewest digits that tell a number apart

Every binary number stands for an interval of reals: those nearer to it than to its neighbours. Its
shortest text is the decimal with the fewest digits in that interval, and of several the one nearest
to the number. The decimals with `n` digits form a grid; if a point of the grid lies in the
interval, one of the two points next to the number does, so only these are tested.
-/

namespace ApiAnnotation

/-- A positive decimal, `digits * 10 ^ exponent`. -/
structure Decimal where
  /-- The digits, read as a natural. -/
  digits : Nat
  /-- The power of ten. -/
  exponent : Int
deriving DecidableEq, Repr

namespace Decimal

/-- Compares `a * 10 ^ k` with `m * 2 ^ e`. -/
def compareScaled (a : Nat) (k : Int) (m : Nat) (e : Int) : Ordering :=
  compare (a * tenPow k.toNat * twoPow (-e).toNat) (m * twoPow e.toNat * tenPow (-k).toNat)

/-- Whether a decimal is read back as `mantissa * 2 ^ exponent`: it lies within half a step of it,
on the bound only if the mantissa is even. Below a power of two the step is half as wide. -/
def readsBack (mantissa : Nat) (exponent : Int) (d : Decimal) : Bool :=
  let narrow := mantissa = twoPow (Binary64.mantissaBits - 1) && Binary64.leastExponent < exponent
  let below := if narrow then 1 else 2
  let low := compareScaled d.digits d.exponent (4 * mantissa - below) (exponent - 2)
  let high := compareScaled d.digits d.exponent (4 * mantissa + 2) (exponent - 2)
  let onBound := mantissa % 2 = 0
  (low == .gt || onBound && low == .eq) && (high == .lt || onBound && high == .eq)

/-- The least power of ten above `mantissa * 2 ^ exponent`, the mantissa being positive. The
logarithm is estimated with `log10 2 ≈ 0.30103` and is short by at most one. -/
def magnitude (mantissa : Nat) (exponent : Int) : Int :=
  let guess := ((Nat.log2 mantissa + exponent) * 30103).fdiv 100000 + 1
  if compareScaled 1 guess mantissa exponent = .gt then guess else guess + 1

/-- The decimal with its trailing zeros moved into the exponent. -/
def trimZeros : Nat → Decimal → Decimal
  | 0, d => d
  | fuel + 1, d =>
    if d.digits % 10 = 0 then trimZeros fuel ⟨d.digits / 10, d.exponent + 1⟩ else d

/-- The point of the grid `10 ^ k` that is read back as `mantissa * 2 ^ exponent` and nearest to
it, if there is one. Of two equally near ones it is the even one. -/
def onGrid? (mantissa : Nat) (exponent k : Int) : Option Decimal :=
  let num := mantissa * twoPow exponent.toNat * tenPow (-k).toNat
  let den := twoPow (-exponent).toNat * tenPow k.toNat
  let nearest := Binary64.nearestEven num den
  let other := if nearest = num / den then nearest + 1 else nearest - 1
  [nearest, other].findSome? fun digits =>
    if readsBack mantissa exponent ⟨digits, k⟩ then some ⟨digits, k⟩ else none

/-- The most digits that are ever needed. -/
def maxDigits : Nat := 17

/-- The decimal with the fewest digits that is read back as `mantissa * 2 ^ exponent`, the mantissa
being positive. -/
def shortest (mantissa : Nat) (exponent : Int) : Decimal :=
  let top := magnitude mantissa exponent
  let found := (List.range maxDigits).findSome? fun (n : Nat) =>
    onGrid? mantissa exponent (top - ((n : Int) + 1))
  trimZeros maxDigits (found.getD ⟨mantissa, exponent⟩)

end Decimal

end ApiAnnotation
