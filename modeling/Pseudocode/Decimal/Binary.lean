/-! Binary interchange formats. A stored number is its bits, and its value is read
off them as `significand * 2 ^ exponent`, so that everything built on it is exact
arithmetic on integers. -/

namespace Pseudocode

/-- A binary format: the number of significant bits, the implicit one included,
and the width of the exponent field. -/
structure BinaryFormat where
  precision : Nat
  exponentBits : Nat
  deriving DecidableEq, Repr

inductive Magnitude where
  | finite (significand : Nat) (exponent : Int)
  | infinite
  | nan
  deriving DecidableEq, Repr

/-- A magnitude and its sign. Zero has two signs, and NaN carries one that is
never shown. -/
structure Signed where
  negative : Bool
  magnitude : Magnitude
  deriving DecidableEq, Repr

namespace BinaryFormat

def binary32 : BinaryFormat := ⟨24, 8⟩

def binary64 : BinaryFormat := ⟨53, 11⟩

/-- The exponent of the least positive number, which is also the exponent of every
subnormal one. -/
def leastExponent (f : BinaryFormat) : Int := 3 - Nat.pow 2 (f.exponentBits - 1) - f.precision

def binade (f : BinaryFormat) : Nat := Nat.pow 2 (f.precision - 1)

/-- The pattern of infinity without its sign. Smaller patterns are finite and
larger ones are NaN. -/
def infinityBits (f : BinaryFormat) : Nat := (Nat.pow 2 f.exponentBits - 1) * f.binade

def signWeight (f : BinaryFormat) : Nat := Nat.pow 2 f.exponentBits * f.binade

def magnitude (f : BinaryFormat) (bits : Nat) : Magnitude :=
  if bits < f.infinityBits then
    if bits < f.binade then .finite bits f.leastExponent
    else .finite (f.binade + bits % f.binade) (f.leastExponent + (bits / f.binade : Nat) - 1)
  else if bits = f.infinityBits then .infinite
  else .nan

def decode (f : BinaryFormat) (bits : Nat) : Signed :=
  ⟨f.signWeight ≤ bits, f.magnitude (bits % f.signWeight)⟩

def withSign (f : BinaryFormat) (negative : Bool) (bits : Nat) : Nat :=
  if negative then f.signWeight + bits else bits

end BinaryFormat

structure Binary32 where
  bits : UInt32
  deriving DecidableEq, Repr, Inhabited

structure Binary64 where
  bits : UInt64
  deriving DecidableEq, Repr, Inhabited

def Binary32.value (x : Binary32) : Signed := BinaryFormat.binary32.decode x.bits.toNat

def Binary64.value (x : Binary64) : Signed := BinaryFormat.binary64.decode x.bits.toNat

end Pseudocode
