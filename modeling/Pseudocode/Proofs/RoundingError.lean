import Pseudocode.Proofs.Rounding

/-! How far rounding goes astray. What a quotient is rounded to lies at most half
a step away from it, and half a step is little beside a quotient that is not among
the least numbers. Quotients below the middle between the largest number and the
power of two above it are rounded to finite numbers. -/

namespace Pseudocode

theorem nearestInteger_bounds (n : Nat) {d : Nat} (hd : 0 < d) :
    2 * nearestInteger n d * d ≤ 2 * n + d ∧ 2 * n ≤ 2 * nearestInteger n d * d + d := by
  have hsplit := Nat.div_add_mod n d
  have hrest := Nat.mod_lt n hd
  have hup : 2 * (n / d + 1) * d = 2 * (d * (n / d)) + 2 * d := by ring
  have hdown : 2 * (n / d) * d = 2 * (d * (n / d)) := by ring
  simp only [nearestInteger]
  split
  · rw [hdown]
    omega
  · split
    · rw [hup]
      omega
    · rcases Nat.mod_two_eq_zero_or_one (n / d) with heven | hodd
      · rw [heven, Nat.add_zero, hdown]
        omega
      · rw [hodd, hup]
        omega

def BinaryNumeral.toRat (x : BinaryNumeral) : ℚ := x.significand * 2 ^ x.exponent

/-- What lies half a step below a bound is no more than half a step below a number
of fewer steps. -/
theorem BinaryNumeral.significand_lt {x : BinaryNumeral} {q : ℚ} {bound : Nat}
    (herror : x.toRat - q ≤ 2 ^ (x.exponent - 1)) (hq : q < (bound - 1 / 2) * 2 ^ x.exponent) :
    x.significand < bound := by
  have hhalf : (2 : ℚ) ^ (x.exponent - 1) = 1 / 2 * 2 ^ x.exponent := by
    rw [zpow_sub₀ two_ne_zero, zpow_one]
    ring
  have hstep : (0 : ℚ) < 2 ^ x.exponent := by positivity
  rw [toRat, hhalf] at herror
  have hlt : (x.significand : ℚ) * 2 ^ x.exponent < bound * 2 ^ x.exponent := by linarith
  exact_mod_cast lt_of_mul_lt_mul_right hlt hstep.le

namespace BinaryFormat

theorem round_exponent (f : BinaryFormat) (num den : Nat) :
    (f.round num den).exponent =
      max f.leastExponent (binaryExponent num den - (f.precision - 1 : Nat)) :=
  rfl

theorem round_error (f : BinaryFormat) (num : Nat) {den : Nat} (hd : 0 < den) :
    |(f.round num den).toRat - num / den| ≤ 2 ^ ((f.round num den).exponent - 1) := by
  generalize hunit : (f.round num den).exponent = unit
  have hsignificand : (f.round num den).significand =
      nearestInteger (shiftQuotient num den (-unit)).1 (shiftQuotient num den (-unit)).2 := by
    rw [← hunit]
    rfl
  have hpos := shiftQuotient_pos num hd (-unit)
  have hquotient := shiftQuotient_eq num den (-unit)
  rw [BinaryNumeral.toRat, hunit, hsignificand]
  generalize (shiftQuotient num den (-unit)).1 = n at hquotient
  generalize (shiftQuotient num den (-unit)).2 = d at hquotient hpos
  obtain ⟨hhigh, hlow⟩ := nearestInteger_bounds n hpos
  have hdq : (0 : ℚ) < d := by exact_mod_cast hpos
  have hstep : (0 : ℚ) < 2 ^ unit := by positivity
  have hhalf : (2 : ℚ) ^ (unit - 1) = 1 / 2 * 2 ^ unit := by
    rw [zpow_sub₀ two_ne_zero, zpow_one]
    ring
  have hvalue : (num / den : ℚ) = n / d * 2 ^ unit := by
    rw [hquotient, mul_assoc, ← zpow_add₀ two_ne_zero, neg_add_cancel, zpow_zero, mul_one]
  have hdistance : |(nearestInteger n d : ℚ) - n / d| ≤ 1 / 2 := by
    have hhighq : (2 * nearestInteger n d * d : ℚ) ≤ 2 * n + d := by exact_mod_cast hhigh
    have hlowq : (2 * n : ℚ) ≤ 2 * nearestInteger n d * d + d := by exact_mod_cast hlow
    rw [abs_le, neg_le_sub_iff_le_add, sub_le_iff_le_add, div_le_iff₀ hdq]
    constructor
    · linarith
    · rw [← sub_le_iff_le_add', le_div_iff₀ hdq]
      linarith
  rw [hvalue, ← sub_mul, abs_mul, abs_of_pos hstep, hhalf]
  exact mul_le_mul_of_nonneg_right hdistance hstep.le

/-- Half a step is little beside a quotient whose steps are not the least ones. -/
theorem round_close {f : BinaryFormat} (hp : 1 ≤ f.precision) {num den : Nat} (hn : 0 < num)
    (hd : 0 < den) (h : (2 : ℚ) ^ (f.leastExponent + (f.precision - 1 : Nat)) ≤ num / den) :
    |(f.round num den).toRat - num / den| ≤ num / den / 2 ^ f.precision := by
  have hexponent := le_binaryExponent hn hd h
  have hunit : (f.round num den).exponent - 1 = binaryExponent num den - f.precision := by
    rw [round_exponent]
    omega
  have herror := f.round_error num hd
  rw [hunit, zpow_sub₀ two_ne_zero, zpow_natCast] at herror
  exact herror.trans (div_le_div_of_nonneg_right (binaryExponent_spec hn hd).1 (by positivity))

end BinaryFormat

namespace Binary64

open BinaryFormat (binary64)

/-- A whole number is rounded to one that is hardly larger and at least half as large. -/
theorem round_whole {n : Nat} (hn : 0 < n) :
    (binary64.round n 1).toRat ≤ n * (1 + 1 / 2 ^ 53) ∧
      (n : ℚ) ≤ 2 * (binary64.round n 1).toRat := by
  have hone : (1 : ℚ) ≤ n := by exact_mod_cast hn
  have hnormal : (2 : ℚ) ^ (binary64.leastExponent + (binary64.precision - 1 : Nat)) ≤
      n / (1 : Nat) := by
    have hsmall : (2 : ℚ) ^ (binary64.leastExponent + (binary64.precision - 1 : Nat)) ≤
        2 ^ (0 : Int) :=
      zpow_le_zpow_right₀ one_le_two (by decide)
    rw [Nat.cast_one, div_one]
    exact hsmall.trans (by simpa using hone)
  have hclose := BinaryFormat.round_close (by decide) hn Nat.one_pos hnormal
  have hprecision : binary64.precision = 53 := rfl
  rw [Nat.cast_one, div_one, hprecision, abs_le] at hclose
  obtain ⟨hlow, hhigh⟩ := hclose
  have hhalf : (n : ℚ) / 2 ^ 53 ≤ n / 2 :=
    div_le_div_of_nonneg_left (by positivity) two_pos (by norm_num)
  constructor
  · linarith
  · linarith

theorem round_exponent_eq (num den : Nat) :
    (binary64.round num den).exponent = max (-1074) (binaryExponent num den - 52) := by
  have hleast : binary64.leastExponent = -1074 := by decide
  rw [BinaryFormat.round_exponent, hleast]
  rfl

theorem lt_step {num den : Nat} (hn : 0 < num) (hd : 0 < den) :
    (num / den : ℚ) < 2 ^ 53 * 2 ^ (binary64.round num den).exponent := by
  have hunit := round_exponent_eq num den
  have hpow : (2 : ℚ) ^ ((binary64.round num den).exponent + 53) =
      2 ^ 53 * 2 ^ (binary64.round num den).exponent := by
    rw [zpow_add₀ two_ne_zero, mul_comm]
    rfl
  rw [← hpow]
  exact (binaryExponent_spec hn hd).2.trans_le (zpow_le_zpow_right₀ one_le_two (by omega))

/-- The middle between the largest number and the power of two above it. -/
def overflowLimit : ℚ := (2 ^ 53 - 1 / 2) * 2 ^ (971 : Int)

theorem nearest_lt {num den : Nat} (hd : 0 < den) (hq : (num / den : ℚ) < overflowLimit) :
    binary64.nearest num den < binary64.infinityBits := by
  unfold BinaryFormat.nearest
  split
  · decide
  · have hn : 0 < num := Nat.pos_of_ne_zero ‹_›
    have herror := (abs_le.mp (binary64.round_error num hd)).2
    have hunit := round_exponent_eq num den
    have hbinade := lt_step hn hd
    have htop : (num / den : ℚ) < 2 ^ (1024 : Int) := by
      have hpow : (2 : ℚ) ^ (1024 : Int) = 2 ^ 53 * 2 ^ (971 : Int) := by
        rw [← zpow_natCast, ← zpow_add₀ two_ne_zero]
        rfl
      rw [hpow]
      rw [overflowLimit] at hq
      exact hq.trans (mul_lt_mul_of_pos_right (by norm_num) (by positivity))
    have hexponent := binaryExponent_lt hn hd htop
    generalize binary64.round num den = x at herror hunit hbinade ⊢
    have hsignificand : x.significand < 2 ^ 53 + 1 := by
      refine BinaryNumeral.significand_lt herror (hbinade.trans ?_)
      push_cast
      exact mul_lt_mul_of_pos_right (by norm_num) (by positivity)
    have hlast (hx : x.exponent = 971) : x.significand < 2 ^ 53 := by
      refine BinaryNumeral.significand_lt herror (hq.trans_eq ?_)
      rw [overflowLimit, hx]
      norm_num
    have hinfinity : binary64.infinityBits = 2047 * 2 ^ 52 := rfl
    have hsize : binary64.binade = 2 ^ 52 := rfl
    have hleast : binary64.leastExponent = -1074 := by decide
    dsimp only
    rw [hinfinity, hsize, hleast]
    omega

end Binary64

end Pseudocode
