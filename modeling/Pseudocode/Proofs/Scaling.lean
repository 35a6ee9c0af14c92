import Pseudocode.Decimal.Scaling
import Pseudocode.Proofs.RoundingError
import Pseudocode.Proofs.ShortestDecimal

/-! Decimals that are read as finite numbers. The digits and the power of ten of a
decimal are each rounded, so its number may lie above it, but not so far that a
decimal well below infinity is taken for infinite. -/

namespace Pseudocode

namespace Binary64

open BinaryFormat (binary64)

theorem tenPower_bounds (k : Nat) :
    (tenPower k).toRat ≤ 10 ^ k * (1 + 1 / 2 ^ 53) ∧ (10 : ℚ) ^ k ≤ 2 * (tenPower k).toRat := by
  have hbounds := round_whole (n := 10 ^ k) (by positivity)
  push_cast at hbounds
  exact hbounds

theorem tenPower_pos (k : Nat) : 0 < (tenPower k).toRat := by
  have hpos : (0 : ℚ) < 10 ^ k := by positivity
  linarith [(tenPower_bounds k).2]

theorem timesTen_eq (x : BinaryNumeral) (k : Nat) :
    ((timesTen x k).1 : ℚ) / (timesTen x k).2 = x.toRat * (tenPower k).toRat := by
  rw [timesTen, shiftQuotient_eq, BinaryNumeral.toRat, BinaryNumeral.toRat, zpow_add₀ two_ne_zero]
  push_cast
  ring

theorem overTen_eq (x : BinaryNumeral) (k : Nat) :
    ((overTen x k).1 : ℚ) / (overTen x k).2 = x.toRat / (tenPower k).toRat := by
  rw [overTen, shiftQuotient_eq, BinaryNumeral.toRat, BinaryNumeral.toRat, zpow_sub₀ two_ne_zero,
    div_mul_div_comm]

theorem overTen_pos (x : BinaryNumeral) (k : Nat) : 0 < (overTen x k).2 := by
  refine shiftQuotient_pos _ (Nat.pos_of_ne_zero fun hzero => ?_) _
  have hpos := tenPower_pos k
  rw [BinaryNumeral.toRat, hzero] at hpos
  simp at hpos

theorem round_le_two {num den : Nat} (hn : 0 < num) (hd : 0 < den) (h : (num / den : ℚ) ≤ 1) :
    (binary64.round num den).toRat ≤ 2 := by
  have hexponent : binaryExponent num den < 1 := binaryExponent_lt hn hd (h.trans_lt (by norm_num))
  have hunit : (binary64.round num den).exponent - 1 ≤ 0 := by
    rw [round_exponent_eq]
    omega
  have hstep : (2 : ℚ) ^ ((binary64.round num den).exponent - 1) ≤ 2 ^ (0 : Int) :=
    zpow_le_zpow_right₀ one_le_two hunit
  rw [zpow_zero] at hstep
  linarith [(abs_le.mp (binary64.round_error num hd)).2]

theorem descend_le {x : BinaryNumeral} (h : x.toRat ≤ 2 ^ 65) (times : Nat) :
    (descend x times).toRat ≤ 2 ^ 65 := by
  induction times generalizing x with
  | zero => exact h
  | succ times ih =>
    rw [descend]
    split
    · exact h
    · next hx =>
      have hten := (tenPower_bounds largestTen).2
      have hquotient := overTen_eq x largestTen
      have hxpos : 0 < x.toRat := by
        have hsignificand : (0 : ℚ) < x.significand := by exact_mod_cast Nat.pos_of_ne_zero hx
        rw [BinaryNumeral.toRat]
        positivity
      have hsmall : x.toRat / (tenPower largestTen).toRat ≤ 1 := by
        rw [div_le_one (tenPower_pos _)]
        have hlarge : (2 : ℚ) ^ 65 ≤ 10 ^ largestTen / 2 := by
          have hpow : (10 : ℚ) ^ 20 ≤ 10 ^ largestTen := pow_le_pow_right₀ (by norm_num) (by decide)
          linarith
        linarith
      have hpos := div_pos hxpos (tenPower_pos largestTen)
      rw [← hquotient] at hsmall hpos
      have hden : (0 : ℚ) < (overTen x largestTen).2 := by exact_mod_cast overTen_pos x largestTen
      have hnum : 0 < (overTen x largestTen).1 := by
        exact_mod_cast (div_pos_iff_of_pos_right hden).mp hpos
      have htwo := round_le_two hnum (overTen_pos x largestTen) hsmall
      exact ih (htwo.trans (by norm_num))

theorem overflowLimit_large : (2 : ℚ) ^ 65 < overflowLimit := by
  have hpow : (2 : ℚ) ^ (65 : Int) ≤ 2 ^ (971 : Int) := zpow_le_zpow_right₀ one_le_two (by decide)
  have hone : (1 : ℚ) < 2 ^ 53 - 1 / 2 := by norm_num
  calc (2 : ℚ) ^ 65 = 1 * 2 ^ (65 : Int) := (one_mul _).symm
    _ < overflowLimit := mul_lt_mul hone hpow (by positivity) (by norm_num)

theorem round_word {digits : Nat} (h : digits < 2 ^ 64) :
    (binary64.round digits 1).toRat ≤ 2 ^ 65 := by
  rcases Nat.eq_zero_or_pos digits with rfl | hpos
  · have hzero : (binary64.round 0 1).significand = 0 := by decide
    simp [BinaryNumeral.toRat, hzero]
  · have hq : (digits : ℚ) < 2 ^ 64 := by exact_mod_cast h
    linarith [(round_whole hpos).1]

/-- A few steps below the largest number. Digits and a power of ten may both be
rounded up, and up to here their product is still finite. -/
def safeLimit : ℚ := (2 ^ 53 - 3) * 2 ^ (971 : Int)

theorem le_largestTen {digits k : Nat} (hpos : 0 < digits)
    (h : (digits * 10 ^ k : ℚ) ≤ safeLimit) : k ≤ largestTen := by
  have hone : (1 : ℚ) ≤ digits := by exact_mod_cast hpos
  have hpow : (2 ^ 53 * 2 ^ (971 : Int) : ℚ) = (2 ^ 1024 : Nat) := by
    rw [Nat.cast_pow, Nat.cast_ofNat]
    exact (pow_add 2 53 971).symm
  have hten : 2 ^ 1024 < 10 ^ (largestTen + 1) := by decide +kernel
  have hbelow : ((10 ^ k : Nat) : ℚ) < (2 ^ 1024 : Nat) := by
    rw [← hpow, Nat.cast_pow, Nat.cast_ofNat]
    calc (10 : ℚ) ^ k ≤ digits * 10 ^ k := le_mul_of_one_le_left (by positivity) hone
      _ ≤ safeLimit := h
      _ < 2 ^ 53 * 2 ^ (971 : Int) := mul_lt_mul_of_pos_right (by norm_num) (by positivity)
  refine not_lt.mp fun hk => ?_
  have hle : 10 ^ (largestTen + 1) ≤ 10 ^ k := Nat.pow_le_pow_right (by decide) hk
  exact absurd (Nat.cast_lt.mp hbelow) (not_lt.mpr (hten.le.trans hle))

theorem timesTen_lt {digits k : Nat} (hpos : 0 < digits)
    (h : (digits * 10 ^ k : ℚ) ≤ safeLimit) :
    ((timesTen (binary64.round digits 1) k).1 : ℚ) / (timesTen (binary64.round digits 1) k).2 <
      overflowLimit := by
  have hten := (tenPower_bounds k).1
  have hdigits := (round_whole hpos).1
  rw [timesTen_eq]
  calc (binary64.round digits 1).toRat * (tenPower k).toRat
      ≤ digits * (1 + 1 / 2 ^ 53) * (10 ^ k * (1 + 1 / 2 ^ 53)) :=
        mul_le_mul hdigits hten (tenPower_pos k).le (by positivity)
    _ = digits * 10 ^ k * (1 + 1 / 2 ^ 53) ^ 2 := by ring
    _ ≤ safeLimit * (1 + 1 / 2 ^ 53) ^ 2 := by gcongr
    _ < overflowLimit := by
        rw [safeLimit, overflowLimit, mul_right_comm]
        exact mul_lt_mul_of_pos_right (by norm_num) (by positivity)

theorem overTen_lt {x : BinaryNumeral} (hx : x.toRat ≤ 2 ^ 65) (k : Nat) :
    ((overTen x (k + 1)).1 : ℚ) / (overTen x (k + 1)).2 < overflowLimit := by
  have hten : 1 ≤ (tenPower (k + 1)).toRat := by
    have hpow : (10 : ℚ) ^ 1 ≤ 10 ^ (k + 1) := pow_le_pow_right₀ (by norm_num) (by omega)
    linarith [(tenPower_bounds (k + 1)).2]
  rw [overTen_eq, div_lt_iff₀ (tenPower_pos _)]
  have hpos : 0 ≤ overflowLimit := (by positivity : (0 : ℚ) ≤ 2 ^ 65).trans overflowLimit_large.le
  exact (hx.trans_lt overflowLimit_large).trans_le (le_mul_of_one_le_right hpos hten)

theorem scaled_lt {n : Numeral} (hword : n.coefficient < 2 ^ 64)
    (h : n.toRat ≤ safeLimit) : scaled n < binary64.infinityBits := by
  obtain ⟨digits, exponent⟩ := n
  unfold scaled
  dsimp only [Numeral.toRat] at hword h ⊢
  split
  · next hexponent =>
    split
    · decide
    · next hne =>
      obtain ⟨k, rfl⟩ := Int.eq_ofNat_of_zero_le hexponent
      have hpos : 0 < digits := Nat.pos_of_ne_zero hne
      rw [zpow_natCast] at h
      have hlargest := le_largestTen hpos h
      rw [if_neg (by omega), Int.toNat_natCast]
      exact nearest_lt (shiftQuotient_pos _ Nat.one_pos _) (timesTen_lt hpos h)
  · exact nearest_lt (overTen_pos _ _) (overTen_lt (descend_le (round_word hword) _) _)

theorem scaled_le (n : Numeral) : scaled n ≤ binary64.infinityBits := by
  have hnearest (num den : Nat) : binary64.nearest num den ≤ binary64.infinityBits := by
    unfold BinaryFormat.nearest
    split
    · exact Nat.zero_le _
    · exact Nat.min_le_right _ _
  unfold scaled
  dsimp only
  split
  · split
    · exact Nat.zero_le _
    · split
      · exact le_rfl
      · exact hnearest _ _
  · exact hnearest _ _

theorem scaled_large {n : Numeral} (h : n.coefficient ≠ 0) (hlarge : largestTen < n.exponent) :
    scaled n = binary64.infinityBits := by
  have hexponent : 0 ≤ n.exponent := by omega
  unfold scaled
  dsimp only
  rw [if_pos hexponent, if_neg h, if_pos hlarge]

end Binary64

end Pseudocode
