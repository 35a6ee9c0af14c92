import Pseudocode.Proofs.StoredNumbers

/-! Decimal texts and the numbers nearest to them. The plain text of a number is a
decimal to which that number is the nearest one. -/

namespace Pseudocode

def Magnitude.toRat? : Magnitude → Option ℚ
  | .finite significand exponent => some (significand * 2 ^ exponent)
  | _ => none

def Signed.toRat? (x : Signed) : Option ℚ :=
  x.magnitude.toRat?.map fun q => if x.negative then -q else q

/-- The pattern of the number nearest to `digits * 10 ^ exponent`. -/
def BinaryFormat.nearestDecimal (f : BinaryFormat) (digits : Nat) (exponent : Int) : Nat :=
  f.nearest (digits * 10 ^ exponent.toNat) (10 ^ (-exponent).toNat)

namespace NumberParts

def toRat (p : NumberParts) : ℚ :=
  (if p.negative then -1 else 1) *
    (digitsValue (p.whole ++ p.fraction) * 10 ^ (p.power - p.fraction.length))

/-- The number of 64 bits that is nearest to a number as it is written. -/
def toBinary64 (p : NumberParts) : Binary64 :=
  .ofPattern (BinaryFormat.binary64.withSign p.negative (BinaryFormat.binary64.nearestDecimal
    (digitsValue (p.whole ++ p.fraction)) (p.power - p.fraction.length)))

end NumberParts

theorem Signed.toRat?_eq_some {x : Signed} {r : ℚ} :
    x.toRat? = some r ↔
      ∃ s e, x.magnitude = .finite s e ∧ r = if x.negative then -(s * 2 ^ e : ℚ)
        else s * 2 ^ e := by
  obtain ⟨negative, magnitude⟩ := x
  cases magnitude with
  | finite s e => simp [toRat?, Magnitude.toRat?, eq_comm]
  | infinite => simp [toRat?, Magnitude.toRat?]
  | nan => simp [toRat?, Magnitude.toRat?]

namespace BinaryFormat

/-- What lies near a finite number of the format is rounded to its pattern. -/
theorem nearestDecimal_magnitude {f : BinaryFormat} {bits s : Nat} {e : Int}
    (h : f.magnitude bits = .finite s e) (hs : 0 < s) {digits : Nat} {exponent : Int}
    (hq : f.isNear s e (digits * 10 ^ exponent)) : f.nearestDecimal digits exponent = bits := by
  obtain ⟨hpattern, -⟩ := magnitude_finite h
  have hscaled := scaled_eq (b := 10) (by decide) digits exponent
  push_cast at hscaled
  rw [hpattern]
  refine nearest_eq (isNumber_of_magnitude h hs) (Nat.pow_pos (by decide)) ?_
  push_cast
  rwa [hscaled]

theorem isNear_self {f : BinaryFormat} (s : Nat) (e : Int) : f.isNear s e (s * 2 ^ e) := by
  have hstep : (0 : ℚ) < 2 ^ e := by positivity
  have hlow : (s - f.reachBelow s e) * 2 ^ e < (s * 2 ^ e : ℚ) :=
    mul_lt_mul_of_pos_right (by linarith [f.reachBelow_pos s e]) hstep
  have hhigh : (s * 2 ^ e : ℚ) < (s + 1 / 2) * 2 ^ e := mul_lt_mul_of_pos_right (by linarith) hstep
  exact ⟨hlow.le, hhigh.le, .inr ⟨hlow, hhigh⟩⟩

theorem magnitude_of_isNumber {f : BinaryFormat} {s : Nat} {e : Int} (h : f.IsNumber s e) :
    f.magnitude ((e - f.leastExponent).toNat * f.binade + s) = .finite s e := by
  have hb := f.binade_pos
  have hge := h.exponent_ge
  obtain ⟨steps, hsteps⟩ : ∃ steps, steps = (e - f.leastExponent).toNat := ⟨_, rfl⟩
  have hfinite := h.finite
  rw [← hsteps] at hfinite ⊢
  rw [magnitude, if_pos hfinite]
  by_cases hnormal : f.binade ≤ s
  · have hnarrow := h.narrow
    have hsplit : steps * f.binade + s = (s - f.binade) + (steps + 1) * f.binade := by
      rw [Nat.add_mul]
      omega
    have hnot : ¬ steps * f.binade + s < f.binade := by omega
    have hmod : (steps * f.binade + s) % f.binade = s - f.binade := by
      rw [hsplit, Nat.add_mul_mod_self_right, Nat.mod_eq_of_lt (by omega)]
    have hdiv : (steps * f.binade + s) / f.binade = steps + 1 := by
      rw [hsplit, Nat.add_mul_div_right _ _ hb, Nat.div_eq_of_lt (by omega), Nat.zero_add]
    have hback : f.binade + (s - f.binade) = s := by omega
    have hexponent : f.leastExponent + (steps + 1 : Nat) - 1 = e := by omega
    rw [if_neg hnot, hmod, hdiv, hback, hexponent]
  · have hleast : e = f.leastExponent := h.normal.resolve_left hnormal
    have hzero : steps = 0 := by omega
    rw [hzero, Nat.zero_mul, Nat.zero_add, if_pos (by omega), hleast]

theorem isNumber_of_lt {n : Nat} (hpos : 0 < n) (hn : n < 2 ^ 53) :
    ∃ s e, binary64.IsNumber s e ∧ (s * 2 ^ e : ℚ) = n := by
  have hlow := Nat.log2_self_le hpos.ne'
  have hhigh : n < 2 ^ (n.log2 + 1) := Nat.lt_log2_self
  have hlog : n.log2 ≤ 52 := Nat.lt_succ_iff.mp ((Nat.log2_lt hpos.ne').mpr hn)
  have hbinade : binary64.binade = 2 ^ 52 := rfl
  have hleast : binary64.leastExponent = -1074 := by decide
  have hinfinity : binary64.infinityBits = 2047 * 2 ^ 52 := by decide
  have hsplit (k : Nat) : 2 ^ (n.log2 + k) * 2 ^ (52 - n.log2) = 2 ^ (52 + k) := by
    rw [← pow_add]
    congr 1
    omega
  have hge : 2 ^ 52 ≤ n * 2 ^ (52 - n.log2) := (hsplit 0) ▸ Nat.mul_le_mul_right _ hlow
  have hlt : n * 2 ^ (52 - n.log2) < 2 ^ 53 :=
    (hsplit 1) ▸ Nat.mul_lt_mul_of_pos_right hhigh (by positivity)
  refine ⟨n * 2 ^ (52 - n.log2), -(52 - n.log2 : Nat), ⟨by positivity, ?_, ?_, .inl ?_, ?_⟩, ?_⟩
  · rw [hbinade]
    omega
  · omega
  · rw [hbinade]
    exact hge
  · rw [hleast, hinfinity, hbinade]
    omega
  · push_cast
    rw [zpow_neg, zpow_natCast, mul_assoc, mul_inv_cancel₀ (by positivity), mul_one]

end BinaryFormat

namespace Spelling

theorem toRat_ofInt (i : Int) : (ofInt i).parts.toRat = i := by
  have habs : ((i.natAbs : Nat) : ℚ) = |(i : ℚ)| := by rw [Nat.cast_natAbs, Int.cast_abs]
  simp only [NumberParts.toRat, parts, ofInt, List.append_nil, digitsValue_toDigits, habs,
    decide_eq_true_eq]
  by_cases hneg : i < 0
  · rw [if_pos hneg, abs_of_neg (by exact_mod_cast hneg)]
    simp
  · rw [if_neg hneg, abs_of_nonneg (by exact_mod_cast not_lt.mp hneg)]
    simp

theorem toBinary64_ofInt {i : Int} (h : i.natAbs < 2 ^ 53) :
    (ofInt i).parts.toBinary64.value.toRat? = some (i : ℚ) := by
  have hbits : ∃ bits s e, BinaryFormat.binary64.nearestDecimal i.natAbs 0 = bits ∧
      BinaryFormat.binary64.magnitude bits = .finite s e ∧ (s * 2 ^ e : ℚ) = i.natAbs := by
    rcases Nat.eq_zero_or_pos i.natAbs with hzero | hpos
    · exact ⟨0, 0, BinaryFormat.binary64.leastExponent, by rw [hzero]; rfl,
        rfl, by rw [hzero]; simp⟩
    · obtain ⟨s, e, hnumber, hvalue⟩ := BinaryFormat.isNumber_of_lt hpos h
      have hmagnitude := BinaryFormat.magnitude_of_isNumber hnumber
      have hnear : BinaryFormat.binary64.isNear s e (i.natAbs * 10 ^ (0 : Int)) := by
        rw [zpow_zero, mul_one, ← hvalue]
        exact BinaryFormat.isNear_self s e
      exact ⟨_, s, e, BinaryFormat.nearestDecimal_magnitude hmagnitude hnumber.positive hnear,
        hmagnitude, hvalue⟩
  obtain ⟨bits, s, e, hnearest, hmagnitude, hvalue⟩ := hbits
  have hparts : (ofInt i).parts.toBinary64 =
      .ofPattern (BinaryFormat.binary64.withSign (decide (i < 0)) bits) := by
    simp [NumberParts.toBinary64, parts, ofInt, hnearest]
  have hfinite : bits < BinaryFormat.binary64.infinityBits :=
    (BinaryFormat.magnitude_finite hmagnitude).2.1
  have habs : ((i.natAbs : Nat) : ℚ) = |(i : ℚ)| := by rw [Nat.cast_natAbs, Int.cast_abs]
  rw [hparts, Binary64.value_ofPattern hfinite, Signed.toRat?_eq_some]
  refine ⟨s, e, hmagnitude, ?_⟩
  rw [hvalue, habs]
  by_cases hneg : i < 0
  · simp [hneg, abs_of_neg (show (i : ℚ) < 0 by exact_mod_cast hneg)]
  · simp [hneg, abs_of_nonneg (show (0 : ℚ) ≤ i by exact_mod_cast not_lt.mp hneg)]

end Spelling

theorem Binary64.spelled_plainText {x : Binary64} {r : ℚ} (h : x.value.toRat? = some r)
    (hne : r ≠ 0) : ∃ n : Spelling, x.plainText.toList = n.chars ∧ n.parts.toBinary64 = x := by
  obtain ⟨s, e, hx, hr⟩ := Signed.toRat?_eq_some.mp h
  have hs : 0 < s := by
    refine Nat.pos_of_ne_zero fun hzero => hne ?_
    rw [hr, hzero]
    simp
  have hnumber := BinaryFormat.isNumber_of_magnitude hx hs
  have hp : 1 ≤ BinaryFormat.binary64.precision := by decide
  obtain ⟨whole, fraction, hform⟩ :=
    Numeral.exists_positionalForm (BinaryFormat.shortest_pos hnumber hp .up) "" 0 rfl
  have hnear := BinaryFormat.shortest_near hnumber hp .up
  rw [← hform.value] at hnear
  have hnearest := BinaryFormat.nearestDecimal_magnitude hx hs hnear
  refine ⟨⟨x.value.negative, whole, fraction, none, hform.isWhole, hform.allDigits⟩, ?_, ?_⟩
  · exact (BinaryFormat.write_finite _ _ hx hs).trans (hform.text x.value.negative)
  · have hback : NumberParts.toBinary64
        (Spelling.parts ⟨x.value.negative, whole, fraction, none, hform.isWhole, hform.allDigits⟩) =
        .ofPattern (BinaryFormat.binary64.withSign x.value.negative
        (x.bits.toNat % BinaryFormat.binary64.signWeight)) := by
      simp only [NumberParts.toBinary64, Spelling.parts, Option.getD_none, hnearest]
    rw [hback, x.withSign_value]

end Pseudocode
