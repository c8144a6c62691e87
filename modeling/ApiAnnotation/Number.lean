import ApiAnnotation.Number.Shortest

/-!
# Numbers and their text

A number of a document is an integer, or a binary number of 64 bits. The text of the latter has the
fewest digits that tell it apart; it is positional for moderate magnitudes and has an exponent
otherwise. The formats differ only in how the exponent is written.
-/

namespace ApiAnnotation

/-- A number of a document. -/
inductive Number where
  /-- An integer. -/
  | int (n : Int)
  /-- A binary number. -/
  | float (x : Binary64)
deriving DecidableEq, Repr, Inhabited

namespace Number

/-- Whether a format can write the number. -/
def isFinite : Number → Bool
  | int _ => true
  | float x => x.isFinite

/-- How a format writes binary numbers. -/
structure Layout where
  /-- The sign of an exponent that is not negative. -/
  exponentPlus : List Char
deriving DecidableEq, Repr

/-- The decimal digits of a natural. -/
def digitsOf (n : Nat) : List Char := Nat.toDigits 10 n

/-- The text of an integer. -/
def textOfInt : Int → List Char
  | .ofNat n => digitsOf n
  | .negSucc n => '-' :: digitsOf (n + 1)

/-- Magnitudes written positionally: the decimal point stands at most five zeros before the first
digit and at most sixteen places after it. -/
def isPositional (point : Int) : Bool := -5 < point && point ≤ 16

/-- The text of a positive decimal. -/
def textOfDecimal (layout : Layout) (d : Decimal) : List Char :=
  let digits := digitsOf d.digits
  let point := digits.length + d.exponent
  if isPositional point then
    if 0 ≤ d.exponent then digits ++ List.replicate d.exponent.toNat '0' ++ ['.', '0']
    else if 0 < point then digits.take point.toNat ++ '.' :: digits.drop point.toNat
    else '0' :: '.' :: List.replicate (-point).toNat '0' ++ digits
  else
    let mantissa := match digits with
      | [] => []
      | [d] => [d]
      | d :: ds => d :: '.' :: ds
    let exponent := point - 1
    mantissa ++ 'e' :: (if exponent < 0 then [] else layout.exponentPlus) ++ textOfInt exponent

/-- The text of a binary number. -/
def textOfBinary (layout : Layout) : Binary64 → List Char
  | .finite negative mantissa exponent =>
    let magnitude :=
      if mantissa = 0 then ['0', '.', '0']
      else textOfDecimal layout (Decimal.shortest mantissa exponent)
    if negative then '-' :: magnitude else magnitude
  | .infinite negative => if negative then ['-', '.', 'i', 'n', 'f'] else ['.', 'i', 'n', 'f']
  | .nan => ['.', 'n', 'a', 'n']

/-- The text of a number. -/
def text (layout : Layout) : Number → List Char
  | int n => textOfInt n
  | float x => textOfBinary layout x

end Number

end ApiAnnotation
