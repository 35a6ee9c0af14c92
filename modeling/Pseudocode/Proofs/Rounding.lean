import Mathlib.Algebra.Order.Field.Power
import Mathlib.Data.Rat.Cast.Order
import Mathlib.Tactic.FieldSimp
import Mathlib.Tactic.Linarith
import Mathlib.Tactic.NormNum
import Mathlib.Tactic.Positivity
import Mathlib.Tactic.Ring
import Pseudocode.Decimal.Rounding

/-! Rounding gives a number of the format back from everything that lies near
enough to it. Near enough is within half a step, and below a power of two, where
the numbers lie twice as dense, within a quarter of one; the ends of this interval
belong to it when the significand is even. -/

namespace Pseudocode

theorem shiftQuotient_def (num den : Nat) (k : Int) :
    shiftQuotient num den k = if 0 ≤ k then (num * 2 ^ k.toNat, den)
      else (num, den * 2 ^ (-k).toNat) :=
  rfl

theorem shiftQuotient_pos (num : Nat) {den : Nat} (hd : 0 < den) (k : Int) :
    0 < (shiftQuotient num den k).2 := by
  rw [shiftQuotient_def]
  split
  · exact hd
  · exact Nat.mul_pos hd (by positivity)

theorem shiftQuotient_eq (num den : Nat) (k : Int) :
    ((shiftQuotient num den k).1 : ℚ) / (shiftQuotient num den k).2 = num / den * 2 ^ k := by
  rw [shiftQuotient_def]
  split
  · have hk : (2 : ℚ) ^ k = 2 ^ k.toNat := by rw [← zpow_natCast, Int.toNat_of_nonneg ‹_›]
    simp only [Nat.cast_mul, Nat.cast_pow, Nat.cast_ofNat, hk]
    ring
  · have hk : (2 : ℚ) ^ k = (2 ^ (-k).toNat)⁻¹ := by
      rw [← zpow_natCast, Int.toNat_of_nonneg (by omega), zpow_neg, inv_inv]
    simp only [Nat.cast_mul, Nat.cast_pow, Nat.cast_ofNat, hk]
    field_simp

/-- A quotient lies in the binade of its exponent. -/
theorem binaryExponent_spec {num den : Nat} (hn : 0 < num) (hd : 0 < den) :
    (2 : ℚ) ^ binaryExponent num den ≤ num / den ∧
      (num / den : ℚ) < 2 ^ (binaryExponent num den + 1) := by
  have hden : (0 : ℚ) < den := by exact_mod_cast hd
  have hdenFloor : (2 : ℚ) ^ (Nat.log2 den : Int) ≤ den := by exact_mod_cast Nat.log2_self_le hd.ne'
  have hdenCeil : (den : ℚ) < 2 ^ ((Nat.log2 den : Int) + 1) := by exact_mod_cast Nat.lt_log2_self
  have hnumFloor : (2 : ℚ) ^ (Nat.log2 num : Int) ≤ num := by exact_mod_cast Nat.log2_self_le hn.ne'
  have hnumCeil : (num : ℚ) < 2 ^ ((Nat.log2 num : Int) + 1) := by exact_mod_cast Nat.lt_log2_self
  obtain ⟨guess, hguess⟩ : ∃ guess, guess = (Nat.log2 num : Int) - Nat.log2 den := ⟨_, rfl⟩
  have hlow : (2 : ℚ) ^ (guess - 1) ≤ num / den := by
    refine (le_div_iff₀ hden).mpr (le_trans ?_ hnumFloor)
    have hpow :
        (2 : ℚ) ^ (Nat.log2 num : Int) = 2 ^ (guess - 1) * 2 ^ ((Nat.log2 den : Int) + 1) := by
      rw [← zpow_add₀ two_ne_zero]
      congr 1
      omega
    rw [hpow]
    gcongr
  have hhigh : (num / den : ℚ) < 2 ^ (guess + 1) := by
    refine (div_lt_iff₀ hden).mpr (lt_of_lt_of_le hnumCeil ?_)
    have hpow :
        (2 : ℚ) ^ ((Nat.log2 num : Int) + 1) = 2 ^ (guess + 1) * 2 ^ (Nat.log2 den : Int) := by
      rw [← zpow_add₀ two_ne_zero]
      congr 1
      omega
    rw [hpow]
    gcongr
  -- the guess is right or one too large, which a comparison decides
  have hcompare : (shiftQuotient num den (-guess)).2 ≤ (shiftQuotient num den (-guess)).1 ↔
      (2 : ℚ) ^ guess ≤ num / den := by
    have hpos : (0 : ℚ) < (shiftQuotient num den (-guess)).2 := by
      exact_mod_cast shiftQuotient_pos num hd _
    rw [← Nat.cast_le (α := ℚ), ← one_le_div hpos, shiftQuotient_eq, zpow_neg, ← div_eq_mul_inv,
      one_le_div (by positivity)]
  have hexponent : binaryExponent num den = if (shiftQuotient num den (-guess)).2 ≤
      (shiftQuotient num den (-guess)).1 then guess else guess - 1 := by
    rw [hguess]
    rfl
  rw [hexponent]
  split
  · exact ⟨hcompare.mp ‹_›, hhigh⟩
  · have hbelow : (num / den : ℚ) < 2 ^ guess := not_le.mp fun h => ‹¬ _› (hcompare.mpr h)
    exact ⟨hlow, by simpa using hbelow⟩

/-- What lies within a half of an integer is rounded to it; exactly a half away,
if the integer is even. -/
theorem nearestInteger_eq {n d s : Nat} (hd : 0 < d) (hlow : 2 * s * d ≤ 2 * n + d)
    (hhigh : 2 * n ≤ 2 * s * d + d)
    (heven : s % 2 = 0 ∨ (2 * s * d < 2 * n + d ∧ 2 * n < 2 * s * d + d)) :
    nearestInteger n d = s := by
  have hsplit := Nat.div_add_mod n d
  have hrest := Nat.mod_lt n hd
  unfold nearestInteger
  set floor := n / d
  set rest := n % d
  have hcases : s = floor ∨ s = floor + 1 := by
    by_contra hne
    rcases Nat.lt_or_ge s floor with h | h
    · have hmul : (s + 1) * d ≤ floor * d := Nat.mul_le_mul_right d h
      nlinarith
    · have hmul : (floor + 2) * d ≤ s * d := Nat.mul_le_mul_right d (by omega)
      nlinarith
  rcases hcases with rfl | rfl
  · have h1 : 2 * rest ≤ d := by nlinarith
    have h2 : 2 * rest = d → floor % 2 = 0 := by
      intro he
      rcases heven with h | ⟨_, h⟩
      · exact h
      · nlinarith
    simp only
    split
    · rfl
    · split <;> omega
  · have h1 : d ≤ 2 * rest := by nlinarith
    have h2 : 2 * rest = d → (floor + 1) % 2 = 0 := by
      intro he
      rcases heven with h | ⟨h, _⟩
      · exact h
      · nlinarith
    simp only
    split
    · omega
    · split <;> omega

theorem binaryExponent_lt {num den : Nat} (hn : 0 < num) (hd : 0 < den) {k : Int}
    (h : (num / den : ℚ) < 2 ^ k) : binaryExponent num den < k :=
  (zpow_lt_zpow_iff_right₀ one_lt_two).mp ((binaryExponent_spec hn hd).1.trans_lt h)

theorem le_binaryExponent {num den : Nat} (hn : 0 < num) (hd : 0 < den) {k : Int}
    (h : (2 : ℚ) ^ k ≤ num / den) : k ≤ binaryExponent num den :=
  Int.lt_add_one_iff.mp
    ((zpow_lt_zpow_iff_right₀ one_lt_two).mp (h.trans_lt (binaryExponent_spec hn hd).2))

theorem nearestInteger_shift {num den s : Nat} (hd : 0 < den) {e : Int}
    (hlow : (s - 1 / 2 : ℚ) * 2 ^ e ≤ num / den) (hhigh : (num / den : ℚ) ≤ (s + 1 / 2) * 2 ^ e)
    (heven : s % 2 = 0 ∨
      ((s - 1 / 2 : ℚ) * 2 ^ e < num / den ∧ (num / den : ℚ) < (s + 1 / 2) * 2 ^ e)) :
    nearestInteger (shiftQuotient num den (-e)).1 (shiftQuotient num den (-e)).2 = s := by
  have hpos := shiftQuotient_pos num hd (-e)
  have heq := shiftQuotient_eq num den (-e)
  generalize (shiftQuotient num den (-e)).1 = n at heq
  generalize (shiftQuotient num den (-e)).2 = d at heq hpos
  have hdq : (0 : ℚ) < d := by exact_mod_cast hpos
  have hstep : (0 : ℚ) < 2 ^ e := by positivity
  have hq : (num / den : ℚ) = n / d * 2 ^ e := by
    rw [heq, mul_assoc, ← zpow_add₀ two_ne_zero, neg_add_cancel, zpow_zero, mul_one]
  rw [hq] at hlow hhigh heven
  simp only [mul_le_mul_iff_left₀ hstep, mul_lt_mul_iff_left₀ hstep] at hlow hhigh heven
  rw [le_div_iff₀ hdq] at hlow
  rw [div_le_iff₀ hdq] at hhigh
  rw [lt_div_iff₀ hdq, div_lt_iff₀ hdq] at heven
  have hlow' : (2 * s * d : ℚ) ≤ 2 * n + d := by linarith
  have hhigh' : (2 * n : ℚ) ≤ 2 * s * d + d := by linarith
  refine nearestInteger_eq hpos (by exact_mod_cast hlow') (by exact_mod_cast hhigh') ?_
  rcases heven with h | ⟨h1, h2⟩
  · exact .inl h
  · have h1' : (2 * s * d : ℚ) < 2 * n + d := by linarith
    have h2' : (2 * n : ℚ) < 2 * s * d + d := by linarith
    exact .inr ⟨by exact_mod_cast h1', by exact_mod_cast h2'⟩

namespace BinaryFormat

/-- How far below a number, in steps, what is rounded to it begins. -/
def reachBelow (f : BinaryFormat) (significand : Nat) (exponent : Int) : ℚ :=
  if significand = f.binade ∧ f.leastExponent < exponent then 1 / 4 else 1 / 2

/-- Whether a quotient is rounded to `significand * 2 ^ exponent`. -/
def isNear (f : BinaryFormat) (significand : Nat) (exponent : Int) (q : ℚ) : Prop :=
  (significand - f.reachBelow significand exponent) * 2 ^ exponent ≤ q ∧
    q ≤ (significand + 1 / 2) * 2 ^ exponent ∧
  (significand % 2 = 0 ∨ ((significand - f.reachBelow significand exponent) * 2 ^ exponent < q ∧
    q < (significand + 1 / 2) * 2 ^ exponent))

/-- Whether `significand * 2 ^ exponent` is a positive number of the format. -/
structure IsNumber (f : BinaryFormat) (significand : Nat) (exponent : Int) : Prop where
  positive : 0 < significand
  narrow : significand < 2 * f.binade
  exponent_ge : f.leastExponent ≤ exponent
  normal : f.binade ≤ significand ∨ exponent = f.leastExponent
  finite : (exponent - f.leastExponent).toNat * f.binade + significand < f.infinityBits

theorem reachBelow_pos (f : BinaryFormat) (s : Nat) (e : Int) : 0 < f.reachBelow s e := by
  unfold reachBelow
  split <;> norm_num

theorem reachBelow_le (f : BinaryFormat) (s : Nat) (e : Int) : f.reachBelow s e ≤ 1 / 2 := by
  unfold reachBelow
  split <;> norm_num

theorem binade_def (f : BinaryFormat) : f.binade = 2 ^ (f.precision - 1) := rfl


theorem binade_pos (f : BinaryFormat) : 0 < f.binade := Nat.two_pow_pos _

theorem binade_mul (f : BinaryFormat) (e : Int) :
    (f.binade : ℚ) * 2 ^ e = 2 ^ ((f.precision - 1 : Nat) + e) := by
  rw [zpow_add₀ two_ne_zero, zpow_natCast, binade_def]
  push_cast
  rfl

theorem isNear.pos {f : BinaryFormat} {s : Nat} {e : Int} {q : ℚ} (h : f.IsNumber s e)
    (hq : f.isNear s e q) : 0 < q := by
  have hs : (1 : ℚ) ≤ s := by exact_mod_cast h.positive
  have hstep : (0 : ℚ) < 2 ^ e := by positivity
  have hlow : 0 < (s - f.reachBelow s e) * 2 ^ e :=
    mul_pos (by linarith [f.reachBelow_le s e]) hstep
  exact hlow.trans_le hq.1

theorem isNear.lt {f : BinaryFormat} {s : Nat} {e : Int} {q : ℚ} (h : f.IsNumber s e)
    (hq : f.isNear s e q) : q < 2 ^ ((f.precision - 1 : Nat) + e + 1) := by
  have hs : (s + 1 : ℚ) ≤ 2 * f.binade := by exact_mod_cast h.narrow
  have hstep : (0 : ℚ) < 2 ^ e := by positivity
  have htop : (2 : ℚ) ^ ((f.precision - 1 : Nat) + e + 1) = 2 * f.binade * 2 ^ e := by
    rw [zpow_add₀ two_ne_zero, ← binade_mul, zpow_one]
    ring
  rw [htop]
  exact hq.2.1.trans_lt (mul_lt_mul_of_pos_right (by linarith) hstep)

/-- Rounding finds the step of the number again, unless the quotient lies in the
denser binade below it. -/
theorem unit_eq {f : BinaryFormat} {s : Nat} {e : Int} (h : f.IsNumber s e) {num den : Nat}
    (hn : 0 < num) (hd : 0 < den) (hq : f.isNear s e (num / den))
    (hnot : f.binade * 2 ^ e ≤ (num / den : ℚ) ∨ e = f.leastExponent) :
    max f.leastExponent (binaryExponent num den - (f.precision - 1 : Nat)) = e := by
  have hupper := binaryExponent_lt hn hd (hq.lt h)
  rcases hnot with hlow | hleast
  · rw [binade_mul] at hlow
    have hlower := le_binaryExponent hn hd hlow
    have hge := h.exponent_ge
    omega
  · omega

/-- Below the least number of a binade the step is half as long. -/
theorem unit_below {f : BinaryFormat} {s : Nat} {e : Int} (h : f.IsNumber s e) {num den : Nat}
    (hn : 0 < num) (hd : 0 < den) (hq : f.isNear s e (num / den))
    (hbelow : (num / den : ℚ) < f.binade * 2 ^ e) (hleast : f.leastExponent < e) :
    s = f.binade ∧
      max f.leastExponent (binaryExponent num den - (f.precision - 1 : Nat)) = e - 1 := by
  have hstep : (0 : ℚ) < 2 ^ e := by positivity
  have hs : s = f.binade := by
    by_contra hne
    have hlt : f.binade + 1 ≤ s := by
      have hge := h.normal.resolve_right hleast.ne'
      omega
    have hltq : (f.binade + 1 : ℚ) ≤ s := by exact_mod_cast hlt
    have hlow := hq.1.trans_lt hbelow
    have hfactor := lt_of_mul_lt_mul_right hlow hstep.le
    linarith [f.reachBelow_le s e]
  refine ⟨hs, ?_⟩
  rw [binade_mul] at hbelow
  have hupper := binaryExponent_lt hn hd hbelow
  have hb : (1 : ℚ) ≤ f.binade := by exact_mod_cast f.binade_pos
  have hhalf : (2 : ℚ) ^ ((f.precision - 1 : Nat) + (e - 1)) ≤ num / den := by
    refine le_trans ?_ hq.1
    have hpow : (2 : ℚ) ^ (e - 1) = 2 ^ e / 2 := by rw [zpow_sub₀ two_ne_zero, zpow_one]
    rw [← binade_mul, hpow, hs]
    have hreach : f.reachBelow f.binade e ≤ 1 / 2 := f.reachBelow_le _ _
    nlinarith
  have hlower := le_binaryExponent hn hd hhalf
  omega

/-- There a quotient near the number is rounded up to it, in steps of that binade. -/
theorem nearestInteger_below {f : BinaryFormat} {e : Int} {num den : Nat} (hd : 0 < den)
    (hq : f.isNear f.binade e (num / den)) (hbelow : (num / den : ℚ) < f.binade * 2 ^ e)
    (hleast : f.leastExponent < e) :
    nearestInteger (shiftQuotient num den (-(e - 1))).1 (shiftQuotient num den (-(e - 1))).2 =
      2 * f.binade := by
  have hpow : (2 : ℚ) ^ e = 2 ^ (e - 1) * 2 := by rw [← zpow_add_one₀ two_ne_zero, sub_add_cancel]
  have hreach : f.reachBelow f.binade e = 1 / 4 := if_pos ⟨rfl, hleast⟩
  have hhalf : (0 : ℚ) < 2 ^ (e - 1) := by positivity
  have hlow := hq.1
  rw [hreach, hpow] at hlow
  rw [hpow] at hbelow
  refine nearestInteger_shift hd ?_ ?_ (.inl (by omega))
  · push_cast
    linarith
  · push_cast
    linarith

theorem nearest_eq {f : BinaryFormat} {s : Nat} {e : Int} (h : f.IsNumber s e) {num den : Nat}
    (hd : 0 < den) (hq : f.isNear s e (num / den)) :
    f.nearest num den = (e - f.leastExponent).toNat * f.binade + s := by
  have hden : (0 : ℚ) < den := by exact_mod_cast hd
  have hn : 0 < num := by
    have hpos := (div_pos_iff_of_pos_right hden).mp (hq.pos h)
    exact_mod_cast hpos
  have hnearest : f.nearest num den =
      let unit := max f.leastExponent (binaryExponent num den - (f.precision - 1 : Nat))
      min ((unit - f.leastExponent).toNat * f.binade +
        nearestInteger (shiftQuotient num den (-unit)).1 (shiftQuotient num den (-unit)).2)
        f.infinityBits := by
    rw [nearest, if_neg hn.ne']
    rfl
  have hstep : (0 : ℚ) < 2 ^ e := by positivity
  rw [hnearest]
  by_cases hbelow : (num / den : ℚ) < f.binade * 2 ^ e ∧ f.leastExponent < e
  · obtain ⟨rfl, hunit⟩ := unit_below h hn hd hq hbelow.1 hbelow.2
    have hinteger := nearestInteger_below hd hq hbelow.1 hbelow.2
    simp only [hunit, hinteger]
    have hfinite := h.finite
    have hsplit : (e - f.leastExponent).toNat = (e - 1 - f.leastExponent).toNat + 1 := by omega
    rw [hsplit, Nat.add_mul, Nat.one_mul] at hfinite ⊢
    omega
  · have hunit : max f.leastExponent (binaryExponent num den - (f.precision - 1 : Nat)) = e := by
      refine unit_eq h hn hd hq ?_
      by_cases hlow : f.binade * 2 ^ e ≤ (num / den : ℚ)
      · exact .inl hlow
      · have hge := h.exponent_ge
        have hnot : ¬ f.leastExponent < e := fun hlt => hbelow ⟨not_le.mp hlow, hlt⟩
        exact .inr (by omega)
    have hreach := f.reachBelow_le s e
    have hinteger :
        nearestInteger (shiftQuotient num den (-e)).1 (shiftQuotient num den (-e)).2 = s := by
      have hwider : (s - 1 / 2 : ℚ) * 2 ^ e ≤ (s - f.reachBelow s e) * 2 ^ e :=
        mul_le_mul_of_nonneg_right (by linarith) hstep.le
      exact nearestInteger_shift hd (hwider.trans hq.1) hq.2.1
        (hq.2.2.imp_right fun hstrict => ⟨hwider.trans_lt hstrict.1, hstrict.2⟩)
    simp only [hunit, hinteger]
    exact Nat.min_eq_left h.finite.le

end BinaryFormat

end Pseudocode
