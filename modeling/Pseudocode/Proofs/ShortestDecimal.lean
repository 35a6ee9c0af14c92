import Pseudocode.Proofs.DecimalGrids

/-! The shortest decimal of a number lies near enough to it to be read back. The
grids that are tried become so fine that one of them has a point in the interval
of the number. -/

namespace Pseudocode

namespace Neighbourhood

variable {f : BinaryFormat} {s : Nat} {e : Int}

theorem pointPosition_le (hs : 0 < s) :
    (10 : ℚ) ^ ((ofFinite f s e).pointPosition - 1) ≤ s * 2 ^ e := by
  have hden : 0 < (ofFinite f s e).den := by exact_mod_cast den_pos f s e
  have hdenq : (0 : ℚ) < (ofFinite f s e).den := by exact_mod_cast hden
  have hvalue : 0 < (ofFinite f s e).value := by
    simp only [ofFinite, Nat.pow_eq]
    positivity
  rw [← value_div, le_div_iff₀ hdenq]
  generalize (ofFinite f s e) = v at *
  unfold pointPosition
  split
  · have hq : 0 < v.value / v.den := Nat.div_pos ‹_› hden
    have hfloor : ((v.value / v.den : Nat) : ℚ) * v.den ≤ v.value := by
      exact_mod_cast Nat.div_mul_le_self v.value v.den
    exact (mul_le_mul_of_nonneg_right (digits_bounds hq).1 hdenq.le).trans hfloor
  · obtain ⟨rest, hrest⟩ : ∃ rest, rest = (v.den - 1) / v.value := ⟨_, rfl⟩
    have hlength : rest < 10 ^ (toString rest).length :=
      (Nat.length_repr_le_iff Nat.length_repr_pos).mp le_rfl
    have hlt : v.den - 1 < (rest + 1) * v.value := by
      have hmod := Nat.lt_mul_div_succ (v.den - 1) hvalue
      rw [← hrest] at hmod
      linarith
    have hmul : (rest + 1) * v.value ≤ 10 ^ (toString rest).length * v.value :=
      Nat.mul_le_mul_right _ hlength
    have hle : v.den ≤ 10 ^ (toString rest).length * v.value := by omega
    have hleq : (v.den : ℚ) ≤ 10 ^ (toString rest).length * v.value := by exact_mod_cast hle
    have hexponent :
        (1 - ((toString rest).length : Int) - 1) = -((toString rest).length : Int) := by
      omega
    rw [← hrest, hexponent, zpow_neg, zpow_natCast, inv_mul_le_iff₀ (by positivity)]
    exact hleq

end Neighbourhood

theorem Numeral.strip_toRat (zeros : Nat) (n : Numeral) : (n.strip zeros).toRat = n.toRat := by
  induction zeros generalizing n with
  | zero => rfl
  | succ zeros ih =>
    rw [Numeral.strip]
    split
    · rw [ih]
      have hcoefficient : n.coefficient = 10 * (n.coefficient / 10) := by omega
      have hq : (n.coefficient : ℚ) = 10 * (n.coefficient / 10 : Nat) := by
        exact_mod_cast hcoefficient
      simp only [Numeral.toRat]
      rw [hq, zpow_add_one₀ (by norm_num)]
      ring
    · rfl

theorem BinaryFormat.enoughDigits_fine {f : BinaryFormat} {s : Nat} {e : Int} (h : f.IsNumber s e)
    (hp : 1 ≤ f.precision) :
    (10 : ℚ) ^ ((Neighbourhood.ofFinite f s e).pointPosition - f.enoughDigits) <
      (1 / 2 + f.reachBelow s e) * 2 ^ e := by
  have hstep : (0 : ℚ) < 2 ^ e := by positivity
  have hpoint := Neighbourhood.pointPosition_le (f := f) (e := e) h.positive
  have hdigits : ((2 ^ f.precision : Nat) : ℚ) < 10 ^ ((toString (2 ^ f.precision)).length : Int) :=
    (digits_bounds (Nat.two_pow_pos _)).2
  have hbinade : (2 * f.binade : ℚ) = ((2 ^ f.precision : Nat) : ℚ) := by
    have hnat : 2 * f.binade = 2 ^ f.precision := by
      rw [binade_def, ← pow_succ']
      congr 1
      omega
    exact_mod_cast hnat
  have hexponent : (Neighbourhood.ofFinite f s e).pointPosition - f.enoughDigits =
      (Neighbourhood.ofFinite f s e).pointPosition - 1 -
      ((toString (2 ^ f.precision)).length : Int) := by
    rw [enoughDigits, Nat.pow_eq]
    push_cast
    ring
  rw [hexponent, zpow_sub₀ (by norm_num), div_lt_iff₀ (by positivity)]
  refine hpoint.trans_lt ?_
  have hreach := f.reachBelow_pos s e
  have hs : (s : ℚ) ≤ (1 / 2 + f.reachBelow s e) * (2 * f.binade) := by
    by_cases hpower : s = f.binade ∧ f.leastExponent < e
    · have hquarter : f.reachBelow s e = 1 / 4 := if_pos hpower
      have hb : (0 : ℚ) < f.binade := by exact_mod_cast f.binade_pos
      rw [hquarter, hpower.1]
      linarith
    · have hhalf : f.reachBelow s e = 1 / 2 := if_neg hpower
      have hnarrow : (s : ℚ) < 2 * f.binade := by exact_mod_cast h.narrow
      rw [hhalf]
      linarith
  have hwide :
      (s : ℚ) < (1 / 2 + f.reachBelow s e) * 10 ^ ((toString (2 ^ f.precision)).length : Int) :=
    hs.trans_lt (mul_lt_mul_of_pos_left (hbinade ▸ hdigits) (by linarith))
  calc (s * 2 ^ e : ℚ) <
      (1 / 2 + f.reachBelow s e) * 10 ^ ((toString (2 ^ f.precision)).length : Int) * 2 ^ e :=
        mul_lt_mul_of_pos_right hwide hstep
    _ = (1 / 2 + f.reachBelow s e) * 2 ^ e * 10 ^ ((toString (2 ^ f.precision)).length : Int) := by
      ring

/-- The shortest decimal of a number is rounded to it. -/
theorem BinaryFormat.shortest_near {f : BinaryFormat} {s : Nat} {e : Int} (h : f.IsNumber s e)
    (hp : 1 ≤ f.precision) (tie : Tie) : f.isNear s e (f.shortest tie s e).toRat := by
  obtain ⟨grids, hgrids⟩ : ∃ grids, f.enoughDigits = grids + 1 := ⟨_, rfl⟩
  have hfine := f.enoughDigits_fine h hp
  rw [shortest, Numeral.strip_toRat, hgrids]
  refine Neighbourhood.firstOnGrid_near h.positive tie
    (Neighbourhood.onGrid?_ne_none h.positive tie ?_)
  have hexponent : (Neighbourhood.ofFinite f s e).pointPosition - 1 - grids =
      (Neighbourhood.ofFinite f s e).pointPosition - f.enoughDigits := by
    rw [hgrids]
    push_cast
    ring
  rwa [hexponent]

end Pseudocode
