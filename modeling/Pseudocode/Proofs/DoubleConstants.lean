import Mathlib.Data.Rat.Floor
import Pseudocode.Proofs.DecimalTexts
import Pseudocode.Proofs.Locality

/-! Constants of 64 bits in rendered text. Most are written with the shortest
decimal that is read back. A constant that is almost the integer below it is
written as an integer, but as the one on the side of zero: that is another integer
when the constant is negative and has a fraction. -/

namespace Pseudocode

theorem Magnitude.exceeds_iff {a b s : Nat} {e : Int} (hb : 0 < b) :
    (Magnitude.finite s e).exceeds a b = true ↔ (a / b : ℚ) < s * 2 ^ e := by
  have hbq : (0 : ℚ) < b := by exact_mod_cast hb
  have hscaled := scaled_eq Nat.two_pos s e
  have hdown : (0 : ℚ) < ((2 ^ (-e).toNat : Nat) : ℚ) := by positivity
  rw [Nat.cast_two] at hscaled
  rw [← hscaled, div_lt_div_iff₀ hbq hdown]
  simp only [exceeds, Nat.pow_eq, decide_eq_true_eq]
  norm_cast

/-- The distance below which a number is almost the integer below it. -/
def toleranceRat : ℚ := 0x1b7cdfd9d7bdbb / 2 ^ 86

theorem fract_signed (negative : Bool) (num : Nat) {den : Nat} (hden : 0 < den) :
    Int.fract (if negative then -(num / den : ℚ) else num / den) =
      ((if negative then (den - num % den) % den else num % den : Nat) : ℚ) / den := by
  have hdenq : (den : ℚ) ≠ 0 := by exact_mod_cast hden.ne'
  have hfract : Int.fract (num / den : ℚ) = (num % den : Nat) / den :=
    Int.fract_div_natCast_eq_div_natCast_mod
  have hrest : num % den < den := Nat.mod_lt _ hden
  cases negative with
  | false => exact hfract
  | true =>
    simp only [if_true]
    by_cases hzero : num % den = 0
    · have hwhole : Int.fract (-(num / den : ℚ)) = 0 := by
        rw [Int.fract_neg_eq_zero, hfract, hzero]; simp
      rw [hwhole, hzero]
      simp
    · have hne : Int.fract (num / den : ℚ) ≠ 0 := by
        rw [hfract]
        exact div_ne_zero (by exact_mod_cast hzero) hdenq
      have hmod : (den - num % den) % den = den - num % den := Nat.mod_eq_of_lt (by omega)
      rw [Int.fract_neg hne, hfract, hmod, Nat.cast_sub hrest.le, sub_div, div_self hdenq]

/-- A number becomes an integer if it lies close enough above one; it is then cut
off, not rounded down. -/
theorem Signed.almostWhole?_eq {x : Signed} {r : ℚ} (h : x.toRat? = some r) :
    x.almostWhole? =
      if Int.fract r < toleranceRat then some (if x.negative then ⌈r⌉ else ⌊r⌋) else none := by
  obtain ⟨s, e, hx, hr⟩ := toRat?_eq_some.mp h
  obtain ⟨num, hnum⟩ : ∃ num, num = s * 2 ^ e.toNat := ⟨_, rfl⟩
  obtain ⟨den, hden⟩ : ∃ den, den = 2 ^ (-e).toNat := ⟨_, rfl⟩
  have hpos : 0 < den := hden ▸ Nat.two_pow_pos _
  have hquotient : (s * 2 ^ e : ℚ) = num / den := by
    rw [hnum, hden]
    exact_mod_cast (scaled_eq Nat.two_pos s e).symm
  have hfloor : ⌊(num / den : ℚ)⌋ = (num / den : Nat) := Rat.floor_natCast_div_natCast num den
  rw [hquotient] at hr
  have hexceeds :
      wholeTolerance.exceeds (if x.negative then (den - num % den) % den else num % den) den =
      true ↔ Int.fract r < toleranceRat := by
    rw [wholeTolerance, Magnitude.exceeds_iff hpos, hr, fract_signed x.negative num hpos,
      toleranceRat]
    norm_num [zpow_neg]
  have hinteger : (if x.negative then -((num / den : Nat) : Int) else (num / den : Nat)) =
      if x.negative then ⌈r⌉ else ⌊r⌋ := by
    cases hnegative : x.negative with
    | false => simp only [hr, hnegative, Bool.false_eq_true, if_false, hfloor]
    | true => simp only [hr, hnegative, if_true, Int.ceil_neg, hfloor]
  simp only [almostWhole?, hx, Nat.pow_eq, ← hnum, ← hden, hexceeds, hinteger]

theorem Signed.exists_multiple {x : Signed} {s : Nat} {e : Int} {r : ℚ}
    (hr : r = if x.negative then -(s * 2 ^ e : ℚ) else s * 2 ^ e) {k : Nat} (hk : -(k : Int) ≤ e) :
    ∃ m : Int, r * 2 ^ k = m := by
  have hstep : (2 : ℚ) ^ e * 2 ^ k = 2 ^ (e + k).toNat := by
    rw [← zpow_natCast 2 k, ← zpow_add₀ two_ne_zero, ← zpow_natCast, Int.toNat_of_nonneg (by omega)]
  cases hnegative : x.negative with
  | false =>
    refine ⟨s * 2 ^ (e + k).toNat, ?_⟩
    rw [hr, hnegative, if_neg Bool.false_ne_true, mul_assoc, hstep]
    push_cast
    rfl
  | true =>
    refine ⟨-(s * 2 ^ (e + k).toNat), ?_⟩
    rw [hr, hnegative, if_pos rfl, neg_mul, mul_assoc, hstep]
    push_cast
    rfl

/-- No number of 64 bits has a fraction between ten to the minus tenth and the
stored number nearest to it. -/
theorem fract_lt_toleranceRat {x : Binary64} {r : ℚ} (h : x.value.toRat? = some r) :
    Int.fract r < toleranceRat ↔ Int.fract r < 1 / 10 ^ 10 := by
  refine ⟨fun hlt => ?_, fun hlt => hlt.trans (by norm_num [toleranceRat])⟩
  obtain ⟨s, e, hx, hr⟩ := Signed.toRat?_eq_some.mp h
  by_cases hfine : -86 ≤ e
  · obtain ⟨m, hm⟩ := Signed.exists_multiple hr (k := 86) hfine
    have hscaled : Int.fract r * 2 ^ 86 = ((m - ⌊r⌋ * 2 ^ 86 : Int) : ℚ) := by
      rw [← Int.self_sub_floor, sub_mul, hm]
      push_cast
      ring
    have hbelow : m - ⌊r⌋ * 2 ^ 86 < 0x1b7cdfd9d7bdbb := by
      rw [toleranceRat, lt_div_iff₀ (by positivity), hscaled] at hlt
      exact_mod_cast hlt
    have hle : Int.fract r * 2 ^ 86 ≤ ((0x1b7cdfd9d7bdbb - 1 : Int) : ℚ) := by
      rw [hscaled]
      exact_mod_cast Int.le_sub_one_of_lt hbelow
    rw [← le_div_iff₀ (by positivity)] at hle
    exact hle.trans_lt (by norm_num)
  · have hnarrow : s < 2 ^ 53 := (BinaryFormat.magnitude_finite hx).2.2.1
    have hs : (s : ℚ) ≤ 2 ^ 53 := by exact_mod_cast hnarrow.le
    have hstep : (2 : ℚ) ^ e ≤ 2 ^ (-87 : Int) := zpow_le_zpow_right₀ one_le_two (by omega)
    have hsmall : (s * 2 ^ e : ℚ) < 1 / 10 ^ 10 := by
      calc (s * 2 ^ e : ℚ) ≤ 2 ^ 53 * 2 ^ (-87 : Int) :=
        mul_le_mul hs hstep (by positivity) (by positivity)
        _ < 1 / 10 ^ 10 := by norm_num
    have hfract : Int.fract (s * 2 ^ e : ℚ) = s * 2 ^ e :=
      Int.fract_eq_self.mpr ⟨by positivity, hsmall.trans (by norm_num)⟩
    cases hnegative : x.value.negative with
    | false =>
      rw [hr, hnegative, if_neg Bool.false_ne_true, hfract]
      exact hsmall
    | true =>
      rw [hr, hnegative, if_pos rfl] at hlt ⊢
      by_cases hzero : (s * 2 ^ e : ℚ) = 0
      · rw [hzero]
        norm_num
      · rw [Int.fract_neg (by rwa [hfract]), hfract] at hlt
        have htolerance : toleranceRat < 1 / 2 := by norm_num [toleranceRat]
        linarith

/-- Whether a number lies so little above an integer that it is shown as one, but
below zero, where it is shown as the next one. -/
def slipsUp (r : ℚ) : Prop := r < 0 ∧ 0 < Int.fract r ∧ Int.fract r < 1 / 10 ^ 10

theorem renderExpression_double {index : UInt32} {targets : List UInt32} (h : index ∉ targets)
    (x : Binary64) (mode : RenderMode) (o : RenderOptions) :
    renderExpression ⟨index, .double x⟩ targets mode o = x.constantText := by
  have hlabel : Renderer.wants { targets, options := o } index = false := by
    simp [Renderer.wants, h]
  simp [renderExpression_eq, Expr.pieces_eq, Node.layout, Part.pieces, Renderer.log,
    Renderer.events, hlabel, eventsText, Event.text]

/-- The next integer is at most 53 bits long, and far away from the number. -/
theorem Binary64.ceil_of_slipsUp {x : Binary64} {r : ℚ} (h : x.value.toRat? = some r)
    (hslips : slipsUp r) : ⌈r⌉ = ⌊r⌋ + 1 ∧ ⌈r⌉.natAbs < 2 ^ 53 ∧ 1 / 10 ^ 10 ≤ |(⌈r⌉ : ℚ) - r| := by
  obtain ⟨hneg, hpos, hsmall⟩ := hslips
  have hceil : (⌈r⌉ : ℚ) = ⌊r⌋ + 1 := by
    have hfloor := Int.floor_add_fract r
    have hnext := Int.ceil_eq_add_one_sub_fract hpos.ne'
    linarith
  obtain ⟨s, e, hx, hr⟩ := Signed.toRat?_eq_some.mp h
  have hexponent : e ≤ 0 := by
    by_contra hwhole
    obtain ⟨m, hm⟩ := Signed.exists_multiple hr (k := 0) (by omega)
    rw [pow_zero, mul_one] at hm
    rw [hm, Int.fract_intCast] at hpos
    exact lt_irrefl 0 hpos
  have hbound : -(2 ^ 53 : ℚ) < r := by
    have hs : (s : ℚ) < 2 ^ 53 := by exact_mod_cast (BinaryFormat.magnitude_finite hx).2.2.1
    have hstep : (2 : ℚ) ^ e ≤ 1 := zpow_le_one_of_nonpos₀ one_le_two hexponent
    have hle : (s * 2 ^ e : ℚ) ≤ s := mul_le_of_le_one_right (by positivity) hstep
    have hnonneg : (0 : ℚ) ≤ s * 2 ^ e := by positivity
    split at hr <;> linarith
  have hlow : -(2 ^ 53 : Int) < ⌈r⌉ := Int.lt_ceil.mpr (by exact_mod_cast hbound)
  have hhigh : ⌈r⌉ ≤ 0 := Int.ceil_le.mpr (by exact_mod_cast hneg.le)
  refine ⟨by exact_mod_cast hceil, by omega, ?_⟩
  have hgap : (⌈r⌉ : ℚ) - r = 1 - Int.fract r := by
    have hfloor := Int.floor_add_fract r
    linarith
  rw [hgap]
  exact le_trans (by linarith) (le_abs_self _)

theorem Signed.shownInteger_eq {x : Signed} {r : ℚ} (h : x.toRat? = some r)
    (hsmall : Int.fract r < 1 / 10 ^ 10) :
    (slipsUp r → (if x.negative then ⌈r⌉ else ⌊r⌋) = ⌈r⌉) ∧
      (¬ slipsUp r → (if x.negative then ⌈r⌉ else ⌊r⌋) = ⌊r⌋) := by
  obtain ⟨s, e, -, hr⟩ := toRat?_eq_some.mp h
  have hnonneg : (0 : ℚ) ≤ s * 2 ^ e := by positivity
  cases hnegative : x.negative with
  | false =>
    rw [hnegative, if_neg Bool.false_ne_true] at hr
    exact ⟨fun hslips => absurd hslips.1 (by linarith), fun _ => rfl⟩
  | true =>
    rw [hnegative, if_pos rfl] at hr
    refine ⟨fun _ => rfl, fun hstays => ?_⟩
    have hwhole : Int.fract r = 0 := by
      by_contra hne
      have hzero : r ≠ 0 := fun hzero => hne (by rw [hzero, Int.fract_zero])
      exact hstays ⟨lt_of_le_of_ne (by linarith) hzero,
        lt_of_le_of_ne (Int.fract_nonneg r) (Ne.symm hne), hsmall⟩
    obtain ⟨i, rfl⟩ := Int.fract_eq_zero_iff.mp hwhole
    rw [if_pos rfl, Int.ceil_intCast, Int.floor_intCast]

theorem Binary64.constantText_eq {x : Binary64} {r : ℚ} (h : x.value.toRat? = some r) :
    x.constantText =
      if Int.fract r < 1 / 10 ^ 10 then toString (if x.value.negative then ⌈r⌉ else ⌊r⌋)
        else x.plainText := by
  rw [constantText, Signed.almostWhole?_eq h]
  simp only [fract_lt_toleranceRat h]
  split
  · next hsome => split at hsome <;> simp_all
  · next hnone => split at hnone <;> simp_all

/-- A finite constant is rendered as a number that lies close to it or is read
back as it, unless it lies a little above an integer and below zero: then, and
only then, the text is neither, but the next integer. -/
theorem Binary64.constantText_faithful {x : Binary64} {r : ℚ} (h : x.value.toRat? = some r) :
    (∀ index targets mode o, index ∉ targets →
      renderExpression ⟨index, .double x⟩ targets mode o = x.constantText) ∧
    ∃ p, readNumber x.constantText.toList = .ok (p, []) ∧
      (|p.toRat - r| < 1 / 10 ^ 10 ∨ p.toBinary64 = x ↔ ¬ slipsUp r) ∧
      (Int.fract r < 1 / 10 ^ 10 → ¬ slipsUp r → p.toRat = ⌊r⌋) ∧
        (slipsUp r → p.toRat = ⌊r⌋ + 1) := by
  refine ⟨fun index targets mode o hindex => renderExpression_double hindex x mode o, ?_⟩
  have hreads (n : Spelling) : readNumber n.chars = .ok (n.parts, []) := by
    simpa using n.readsAs.2 [] nofun
  rw [constantText_eq h]
  by_cases hsmall : Int.fract r < 1 / 10 ^ 10
  · obtain ⟨hup, hdown⟩ := Signed.shownInteger_eq h hsmall
    rw [if_pos hsmall, ← Spelling.chars_ofInt]
    refine ⟨_, hreads _, ?_⟩
    rw [Spelling.toRat_ofInt]
    by_cases hslips : slipsUp r
    · obtain ⟨hnext, hlength, hfar⟩ := Binary64.ceil_of_slipsUp h hslips
      rw [hup hslips]
      refine ⟨iff_of_false ?_ (not_not_intro hslips), fun _ hnot =>
        absurd hslips hnot, fun _ => by exact_mod_cast hnext⟩
      rintro (hclose | hback)
      · exact not_lt.mpr hfar hclose
      · have hexact := Spelling.toBinary64_ofInt hlength
        rw [hback, h, Option.some.injEq] at hexact
        have hpos := hslips.2.1
        rw [hexact, Int.fract_intCast] at hpos
        exact lt_irrefl 0 hpos
    · rw [hdown hslips]
      have hdistance : |(⌊r⌋ : ℚ) - r| = Int.fract r := by
        rw [abs_sub_comm, Int.self_sub_floor, abs_of_nonneg (Int.fract_nonneg r)]
      exact ⟨iff_of_true (.inl (hdistance ▸ hsmall)) hslips, fun _ _ => rfl, fun hnot =>
        absurd hnot hslips⟩
  · have hne : r ≠ 0 := by
      rintro rfl
      exact hsmall (by norm_num)
    obtain ⟨n, htext, hback⟩ := Binary64.spelled_plainText h hne
    rw [if_neg hsmall, htext]
    exact ⟨n.parts, hreads n, iff_of_true (.inr hback) fun hslips => hsmall hslips.2.2,
      fun hnot => absurd hnot hsmall, fun hslips => absurd hslips.2.2 hsmall⟩

def littleAboveTwo : Binary64 := ⟨0x4000000000000800⟩

theorem littleAboveTwo_toRat? : littleAboveTwo.value.toRat? = some (2 + 1 / 2 ^ 40) := by
  have hvalue : littleAboveTwo.value = ⟨false, .finite (2 ^ 52 + 2 ^ 11) (-51)⟩ := by decide
  rw [hvalue, Signed.toRat?_eq_some]
  exact ⟨_, _, rfl, by norm_num [zpow_neg]⟩

theorem Binary64.constantText_faithful_littleAboveTwo :
    littleAboveTwo.value.toRat? = some (2 + 1 / 2 ^ 40) ∧
    renderExpression ⟨5, .double littleAboveTwo⟩ [] .expression ⟨false⟩ = "2" ∧
    ∃ p, readNumber "2".toList = .ok (p, []) ∧ p.toRat = 2 ∧
      (|p.toRat - (2 + 1 / 2 ^ 40)| < 1 / 10 ^ 10 ∨ p.toBinary64 = littleAboveTwo) := by
  obtain ⟨htext, p, hread, hfaithful, hbelow, -⟩ :=
    Binary64.constantText_faithful littleAboveTwo_toRat?
  have hrendered := htext 5 [] .expression ⟨false⟩ (by simp)
  have hwhole : littleAboveTwo.value.almostWhole? = some 2 := by decide
  have htwo : littleAboveTwo.constantText = "2" := by
    rw [Binary64.constantText, hwhole]
    decide
  have hfloor : ⌊(2 + 1 / 2 ^ 40 : ℚ)⌋ = 2 := by
    rw [Int.floor_eq_iff]
    norm_num
  have hfract : Int.fract (2 + 1 / 2 ^ 40 : ℚ) < 1 / 10 ^ 10 := by
    rw [← Int.self_sub_floor, hfloor]
    norm_num
  have hstays : ¬ slipsUp (2 + 1 / 2 ^ 40) := fun hslips => absurd hslips.1 (by norm_num)
  rw [htwo] at hrendered hread
  rw [hfloor] at hbelow
  exact ⟨littleAboveTwo_toRat?, hrendered, p, hread, hbelow hfract hstays, hfaithful.mpr hstays⟩

def aboveMinusOne : Binary64 := ⟨0xbfefffffffffffff⟩

/-- The number of 64 bits next to minus one, on the side of zero, is rendered as zero. -/
theorem Binary64.constantText_aboveMinusOne :
    aboveMinusOne.value.toRat? = some (-1 + 1 / 2 ^ 53) ∧
    renderExpression ⟨5, .double aboveMinusOne⟩ [] .expression ⟨false⟩ = "0" ∧
    ¬ ∃ p, readNumber "0".toList = .ok (p, []) ∧
      (|p.toRat - (-1 + 1 / 2 ^ 53)| < 1 / 10 ^ 10 ∨ p.toBinary64 = aboveMinusOne) := by
  have hvalue : aboveMinusOne.value = ⟨true, .finite (2 ^ 53 - 1) (-53)⟩ := by decide
  have hwhole : aboveMinusOne.value.almostWhole? = some 0 := by decide
  have hzero : aboveMinusOne.constantText = "0" := by
    rw [Binary64.constantText, hwhole]
    decide
  have hrendered :=
    renderExpression_double (List.not_mem_nil (a := 5)) aboveMinusOne .expression ⟨false⟩
  refine ⟨?_, hrendered.trans hzero, ?_⟩
  · rw [hvalue, Signed.toRat?_eq_some]
    exact ⟨_, _, rfl, by norm_num [zpow_neg]⟩
  · rintro ⟨p, hread, hfaithful⟩
    have hparts : readNumber "0".toList = .ok (⟨false, ['0'], [], 0, false⟩, []) := rfl
    rw [hparts, Except.ok.injEq, Prod.mk.injEq] at hread
    obtain ⟨rfl, -⟩ := hread
    have hdigits : digitsValue ['0'] = 0 := rfl
    rcases hfaithful with hclose | hback
    · norm_num [NumberParts.toRat, hdigits, abs_of_pos] at hclose
    · exact absurd hback (by decide)

end Pseudocode
