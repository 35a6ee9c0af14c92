import Pseudocode.Decimal.Rounding
import Pseudocode.Decimal.Shortest

/-! How numbers are written: the digits come from the shortest decimal that reads
back, a style says where the point goes and when an exponent is written. -/

namespace Pseudocode

structure NumeralStyle where
  /-- Whether a number is written without an exponent, asked of the `k` in
  `0.d₁d₂… * 10 ^ k`. -/
  positional : Int → Bool
  wholeMark : String
  tie : Tie

/-- Numbers in rendered text have no exponent, and whole numbers have no point. -/
def NumeralStyle.plain : NumeralStyle := ⟨fun _ => true, "", .up⟩

/-- Numbers of 64 bits in a stored dump: whole ones end in `.0`, very large and
very small ones have an exponent. -/
def NumeralStyle.wide : NumeralStyle := ⟨fun k => -5 < k && k ≤ 16, ".0", .even⟩

/-- Numbers of 32 bits in a stored dump switch to an exponent earlier. -/
def NumeralStyle.narrow : NumeralStyle := ⟨fun k => -6 < k && k ≤ 13, ".0", .even⟩

def zeros (n : Nat) : String := String.ofList (List.replicate n '0')

namespace Numeral

def digits (n : Numeral) : List Char := (toString n.coefficient).toList

/-- The `k` for which the number is `0.d₁d₂… * 10 ^ k`. -/
def point (n : Numeral) : Int := n.digits.length + n.exponent

def positional (wholeMark : String) (n : Numeral) : String :=
  if 0 ≤ n.exponent then String.ofList n.digits ++ zeros n.exponent.toNat ++ wholeMark
  else if 0 < n.point then
    String.ofList (n.digits.take n.point.toNat) ++ "." ++
      String.ofList (n.digits.drop n.point.toNat)
  else "0." ++ zeros (-n.point).toNat ++ String.ofList n.digits

def scientific (n : Numeral) : String :=
  let power := n.point - 1
  String.ofList (n.digits.take 1)
    ++ (if n.digits.length = 1 then "" else "." ++ String.ofList (n.digits.drop 1))
    ++ (if 0 ≤ power then "e+" else "e-") ++ toString power.natAbs

def write (style : NumeralStyle) (n : Numeral) : String :=
  if style.positional n.point then n.positional style.wholeMark else n.scientific

end Numeral

def BinaryFormat.write (f : BinaryFormat) (style : NumeralStyle) (x : Signed) : String :=
  let sign := if x.negative then "-" else ""
  match x.magnitude with
  | .nan => "NaN"
  | .infinite => sign ++ "inf"
  | .finite 0 _ => sign ++ "0" ++ style.wholeMark
  | .finite significand exponent => sign ++ (f.shortest style.tie significand exponent).write style

def Binary32.plainText (x : Binary32) : String := BinaryFormat.binary32.write .plain x.value

def Binary64.plainText (x : Binary64) : String := BinaryFormat.binary64.write .plain x.value

/-- The form of a stored dump, which has no spelling for infinities and NaN. -/
def Binary32.storedText (x : Binary32) : Option String :=
  match x.value.magnitude with
  | .finite .. => some (BinaryFormat.binary32.write .narrow x.value)
  | _ => none

def Binary64.storedText (x : Binary64) : Option String :=
  match x.value.magnitude with
  | .finite .. => some (BinaryFormat.binary64.write .wide x.value)
  | _ => none

end Pseudocode
