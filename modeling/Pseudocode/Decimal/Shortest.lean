import Pseudocode.Decimal.Binary

/-! The shortest decimal that reads back to a stored number. The numbers that
round to a stored one form an interval around it, whose ends belong to it when the
significand is even. Decimals of 1, 2, ... digits are tried; the first grid with a
point in the interval wins, and of two such points the nearer. -/

namespace Pseudocode

structure Numeral where
  coefficient : Nat
  exponent : Int
  deriving DecidableEq, Repr

inductive Tie where
  | up
  | even
  deriving DecidableEq, Repr

/-- A number and the ends of the interval that rounds to it, all three over one
denominator. -/
structure Neighbourhood where
  low : Nat
  value : Nat
  high : Nat
  den : Nat
  closed : Bool
  deriving Repr

namespace Neighbourhood

/-- The neighbourhood of `significand * 2 ^ exponent`. Below a power of two the
numbers lie twice as dense. -/
def ofFinite (f : BinaryFormat) (significand : Nat) (exponent : Int) : Neighbourhood :=
  let below := if significand = f.binade ∧ f.leastExponent < exponent then 1 else 2
  let up := Nat.pow 2 (exponent - 2).toNat
  ⟨(4 * significand - below) * up, 4 * significand * up, (4 * significand + 2) * up,
    Nat.pow 2 (2 - exponent).toNat, significand % 2 = 0⟩

/-- The number of digits in front of the decimal point; for numbers below one,
minus the number of zeros that follow the point. -/
def pointPosition (v : Neighbourhood) : Int :=
  if v.den ≤ v.value then (toString (v.value / v.den)).length
  else 1 - (toString ((v.den - 1) / v.value)).length

def contains (v : Neighbourhood) (n d : Nat) : Bool :=
  if v.closed then v.low * d ≤ n * v.den && n * v.den ≤ v.high * d
  else v.low * d < n * v.den && n * v.den < v.high * d

def onGrid? (v : Neighbourhood) (tie : Tie) (exponent : Int) : Option Numeral :=
  let up := Nat.pow 10 exponent.toNat
  let down := Nat.pow 10 (-exponent).toNat
  let floor := v.value * down / (v.den * up)
  let rest := 2 * (v.value * down % (v.den * up))
  let nearer :=
    if rest < v.den * up then floor
    else if v.den * up < rest then floor + 1
    else match tie with
      | .up => floor + 1
      | .even => floor + floor % 2
  match v.contains (floor * up) down, v.contains ((floor + 1) * up) down with
  | true, true => some ⟨nearer, exponent⟩
  | true, false => some ⟨floor, exponent⟩
  | false, true => some ⟨floor + 1, exponent⟩
  | false, false => none

def firstOnGrid (v : Neighbourhood) (tie : Tie) : Nat → Int → Numeral
  | 0, exponent =>
    ⟨v.value * Nat.pow 10 (-exponent).toNat / (v.den * Nat.pow 10 exponent.toNat), exponent⟩
  | grids + 1, exponent =>
    match v.onGrid? tie exponent with
    | some n => n
    | none => v.firstOnGrid tie grids (exponent - 1)

end Neighbourhood

def Numeral.strip : Nat → Numeral → Numeral
  | 0, n => n
  | zeros + 1, n =>
    if n.coefficient % 10 = 0 then strip zeros ⟨n.coefficient / 10, n.exponent + 1⟩ else n

/-- So many digits always suffice: one more than the digits of the largest significand. -/
def BinaryFormat.enoughDigits (f : BinaryFormat) : Nat :=
  (toString (Nat.pow 2 f.precision)).length + 1

/-- The shortest decimal that rounds to the positive number `significand * 2 ^
exponent`, and of those the nearest to it. -/
def BinaryFormat.shortest (f : BinaryFormat) (tie : Tie) (significand : Nat) (exponent : Int) :
    Numeral :=
  let v := Neighbourhood.ofFinite f significand exponent
  (v.firstOnGrid tie f.enoughDigits (v.pointPosition - 1)).strip f.enoughDigits

end Pseudocode
