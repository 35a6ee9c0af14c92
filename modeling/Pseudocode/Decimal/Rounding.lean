import Pseudocode.Decimal.Binary

/-! Rounding an exact quotient to a binary format: to the nearest number, and of
two equally near to the one with an even significand. Past the largest finite
number the result is infinite. -/

namespace Pseudocode

def nearestInteger (num den : Nat) : Nat :=
  let floor := num / den
  let twice := 2 * (num % den)
  if twice < den then floor
  else if den < twice then floor + 1
  else floor + floor % 2

def shiftQuotient (num den : Nat) (shift : Int) : Nat × Nat :=
  if 0 ≤ shift then (num * Nat.pow 2 shift.toNat, den) else (num, den * Nat.pow 2 (-shift).toNat)

def binaryExponent (num den : Nat) : Int :=
  let guess : Int := (Nat.log2 num : Int) - (Nat.log2 den : Int)
  let (n, d) := shiftQuotient num den (-guess)
  if d ≤ n then guess else guess - 1

/-- The number `significand * 2 ^ exponent`. -/
structure BinaryNumeral where
  significand : Nat
  exponent : Int
  deriving DecidableEq, Repr

namespace BinaryFormat

/-- `num / den` in the steps of its binade, or in the least steps, rounded to a
whole number of them. There is no largest number here. -/
def round (f : BinaryFormat) (num den : Nat) : BinaryNumeral :=
  let unit := max f.leastExponent (binaryExponent num den - (f.precision - 1 : Nat))
  let (n, d) := shiftQuotient num den (-unit)
  ⟨nearestInteger n d, unit⟩

/-- The pattern of the number nearest to `num / den`. A significand that is
rounded up past its binade carries into the exponent field, which is the next
number of the format. -/
def nearest (f : BinaryFormat) (num den : Nat) : Nat :=
  if num = 0 then 0
  else
    let x := f.round num den
    min ((x.exponent - f.leastExponent).toNat * f.binade + x.significand) f.infinityBits

def ofSigned (f : BinaryFormat) (x : Signed) : Nat :=
  f.withSign x.negative <|
    match x.magnitude with
    | .finite significand exponent =>
      let (n, d) := shiftQuotient significand 1 exponent
      f.nearest n d
    | .infinite => f.infinityBits
    | .nan => f.infinityBits + f.binade / 2

def ofInt (f : BinaryFormat) (i : Int) : Nat := f.withSign (i < 0) (f.nearest i.natAbs 1)

end BinaryFormat

def Binary32.ofPattern (bits : Nat) : Binary32 := ⟨UInt32.ofNat bits⟩

def Binary64.ofPattern (bits : Nat) : Binary64 := ⟨UInt64.ofNat bits⟩

def Binary32.ofInt (i : Int) : Binary32 := .ofPattern (BinaryFormat.binary32.ofInt i)

def Binary64.ofInt (i : Int) : Binary64 := .ofPattern (BinaryFormat.binary64.ofInt i)

def Binary64.toBinary32 (x : Binary64) : Binary32 :=
  .ofPattern (BinaryFormat.binary32.ofSigned x.value)

end Pseudocode
