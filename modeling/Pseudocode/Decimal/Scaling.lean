import Pseudocode.Decimal.Rounding
import Pseudocode.Decimal.Shortest

/-! Decimals as numbers of 64 bits. A decimal is not rounded as a whole: its
digits are, and a power of ten is, and so is the product or quotient of these two.
The result may lie beside the number nearest to the decimal. -/

namespace Pseudocode

namespace Binary64

/-- The exponent of the largest power of ten below infinity. -/
def largestTen : Nat := 308

def tenPower (k : Nat) : BinaryNumeral := BinaryFormat.binary64.round (Nat.pow 10 k) 1

/-- The product with a power of ten, not yet rounded, as a quotient. -/
def timesTen (x : BinaryNumeral) (k : Nat) : Nat × Nat :=
  let ten := tenPower k
  shiftQuotient (x.significand * ten.significand) 1 (x.exponent + ten.exponent)

def overTen (x : BinaryNumeral) (k : Nat) : Nat × Nat :=
  let ten := tenPower k
  shiftQuotient x.significand ten.significand (x.exponent - ten.exponent)

/-- Divides by the largest power of ten as often as told, or until nothing is left. -/
def descend (x : BinaryNumeral) : Nat → BinaryNumeral
  | 0 => x
  | times + 1 =>
    if x.significand = 0 then x
    else
      let (num, den) := overTen x largestTen
      descend (BinaryFormat.binary64.round num den) times

/-- The pattern of a decimal. -/
def scaled (n : Numeral) : Nat :=
  let x := BinaryFormat.binary64.round n.coefficient 1
  if 0 ≤ n.exponent then
    if n.coefficient = 0 then 0
    else if largestTen < n.exponent then BinaryFormat.binary64.infinityBits
    else
      let (num, den) := timesTen x n.exponent.toNat
      BinaryFormat.binary64.nearest num den
  else
    let k := (-n.exponent).toNat - 1
    let (num, den) := overTen (descend x (k / largestTen)) (k % largestTen + 1)
    BinaryFormat.binary64.nearest num den

end Binary64

end Pseudocode
