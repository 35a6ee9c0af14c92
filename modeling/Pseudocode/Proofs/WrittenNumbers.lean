import Pseudocode.Proofs.ShortestDecimal
import Pseudocode.Proofs.Spelling

/-! Decimals as they are written. Each form of a decimal is a spelling, and spells
the value of the decimal. -/

namespace Pseudocode

structure IsDecimalText (cs : List Char) (q : ℚ) (n : Spelling) : Prop where
  text : cs = n.chars
  value : (digitsValue (n.whole ++ n.fraction) : ℚ) * 10 ^ (n.power.getD 0 - n.fraction.length) = q

theorem isDecimalText_spelled (negative : Bool) {whole fraction : List Char} (hw : isWhole whole)
    (hf : allDigits fraction) (power : Option Int) {q : ℚ}
    (hq : (digitsValue (whole ++ fraction) : ℚ) * 10 ^ (power.getD 0 - fraction.length) = q) :
    IsDecimalText (spelledNumber negative whole fraction power) q ⟨negative, whole, fraction,
      power, hw, hf⟩ :=
  ⟨rfl, hq⟩

/-- Whether numbers in a style are told from integers by their point, and few
digits stand in front of it. -/
structure NumeralStyle.IsStored (style : NumeralStyle) : Prop where
  mark : style.wholeMark = ".0"
  reach : ∀ {k : Int}, style.positional k = true → k ≤ 20

theorem NumeralStyle.isStored_wide : NumeralStyle.wide.IsStored :=
  ⟨rfl, fun h => by simp [NumeralStyle.wide] at h; omega⟩

theorem NumeralStyle.isStored_narrow : NumeralStyle.narrow.IsStored :=
  ⟨rfl, fun h => by simp [NumeralStyle.narrow] at h; omega⟩

namespace Numeral

theorem digits_eq (n : Numeral) : n.digits = Nat.toDigits 10 n.coefficient := by simp [digits]

theorem digits_take {n : Numeral} (h : 0 < n.coefficient) {k : Nat} (hk : 0 < k) :
    isWhole (n.digits.take k) := by
  obtain ⟨c, ds, hc, hne⟩ := toDigits_head h.ne'
  have hdigits := isWhole_toDigits n.coefficient
  rw [← n.digits_eq] at hc hdigits
  refine ⟨fun c hc => hdigits.1 c (List.mem_of_mem_take hc), .inr ⟨c, ds.take (k - 1), ?_, hne⟩⟩
  obtain ⟨k, rfl⟩ : ∃ j, k = j + 1 := ⟨k - 1, by omega⟩
  rw [hc]
  rfl

theorem allDigits_digits (n : Numeral) : allDigits n.digits := fun _ => isDigit_of_mem_digits

theorem digitsValue_digits (n : Numeral) : digitsValue n.digits = n.coefficient := by
  simp [n.digits_eq]

theorem cut_value {n : Numeral} {k : Nat} (power : Int)
    (h : power - (n.digits.length - k : Nat) = n.exponent) :
    (digitsValue (n.digits.take k ++ n.digits.drop k) : ℚ) *
      10 ^ (power - (n.digits.drop k).length) = n.toRat := by
  rw [List.take_append_drop, digitsValue_digits, List.length_drop, h, toRat]

/-- The form without an exponent is digits in front of a point and behind it.
Whole numbers end in a mark. -/
structure PositionalForm (n : Numeral) (mark : String) (whole fraction : List Char) : Prop where
  isWhole : isWhole whole
  allDigits : allDigits fraction
  text : ∀ negative, (if negative then ['-'] else []) ++ (n.positional mark).toList =
    spelledNumber negative whole fraction none
  value : (digitsValue (whole ++ fraction) : ℚ) * 10 ^ (0 - (fraction.length : Int)) = n.toRat
  short : n.point ≤ 20 → whole.length ≤ 20

/-- Zeros fill up the digits to the point. -/
theorem positionalForm_large {n : Numeral} (h : 0 < n.coefficient) (hexponent : 0 ≤ n.exponent)
    {mark : String} {tail : Nat}
    (hmark : mark.toList = if tail = 0 then [] else '.' :: List.replicate tail '0') :
    n.PositionalForm mark (n.digits ++ List.replicate n.exponent.toNat '0')
      (List.replicate tail '0') where
  isWhole := by
    obtain ⟨c, ds, hc, hne⟩ := toDigits_head h.ne'
    rw [← n.digits_eq] at hc
    refine ⟨fun c hc =>
      ?_, .inr ⟨c, ds ++ List.replicate n.exponent.toNat '0', by rw [hc]; rfl, hne⟩⟩
    rcases List.mem_append.mp hc with hc | hc
    · exact n.allDigits_digits c hc
    · exact allDigits_zeros _ c hc
  allDigits := allDigits_zeros tail
  text negative := by simp [positional, hexponent, spelledNumber, powerChars, zeros, hmark]
  value := by
    have hcast : (n.exponent.toNat : Int) = n.exponent := Int.toNat_of_nonneg hexponent
    rw [digitsValue_append, digitsValue_append, digitsValue_digits, digitsValue_zeros,
      digitsValue_zeros, toRat, zero_sub, zpow_neg]
    conv_rhs => rw [← hcast, zpow_natCast]
    simp
  short hshort := by
    rw [List.length_append, List.length_replicate]
    unfold point at hshort
    omega

/-- The point stands between the digits. -/
theorem positionalForm_between {n : Numeral} (h : 0 < n.coefficient) (hexponent : ¬ 0 ≤ n.exponent)
    (hpoint : 0 < n.point) (mark : String) :
    n.PositionalForm mark (n.digits.take n.point.toNat) (n.digits.drop n.point.toNat) := by
  have hlength : n.point.toNat < n.digits.length := by
    unfold point at hpoint ⊢
    omega
  refine ⟨digits_take h (by omega), fun c hc => n.allDigits_digits c (List.mem_of_mem_drop hc),
    fun negative => ?_, cut_value 0 (by unfold point at hpoint ⊢; omega), fun hshort => ?_⟩
  · simp [positional, hexponent, hpoint, spelledNumber, powerChars, hlength]
  · rw [List.length_take]
    omega

/-- Zeros stand between the point and the digits. -/
theorem positionalForm_small {n : Numeral} (hexponent : ¬ 0 ≤ n.exponent) (hpoint : ¬ 0 < n.point)
    (mark : String) :
    n.PositionalForm mark ['0'] (List.replicate (-n.point).toNat '0' ++ n.digits) := by
  have hne : n.digits ≠ [] := by simp [n.digits_eq, Nat.toDigits_ne_nil]
  refine ⟨isWhole_zero, fun c hc => ?_, fun negative => ?_, ?_, by simp⟩
  · rcases List.mem_append.mp hc with hc | hc
    · exact allDigits_zeros _ c hc
    · exact n.allDigits_digits c hc
  · simp [positional, hexponent, hpoint, spelledNumber, powerChars, zeros, hne]
  · have hzero : digitsValue ['0'] = 0 := digitsValue_zeros 1
    have hpower : 0 - ((List.replicate (-n.point).toNat '0' ++ n.digits).length : Int) =
        n.exponent := by
      rw [List.length_append, List.length_replicate]
      unfold point at hpoint ⊢
      omega
    rw [digitsValue_append, digitsValue_append, digitsValue_digits, digitsValue_zeros, hzero,
      hpower, toRat]
    simp

theorem exists_positionalForm {n : Numeral} (h : 0 < n.coefficient) (mark : String) (tail : Nat)
    (hmark : mark.toList = if tail = 0 then [] else '.' :: List.replicate tail '0') :
    ∃ whole fraction, n.PositionalForm mark whole fraction := by
  by_cases hexponent : 0 ≤ n.exponent
  · exact ⟨_, _, positionalForm_large h hexponent hmark⟩
  · by_cases hpoint : 0 < n.point
    · exact ⟨_, _, positionalForm_between h hexponent hpoint mark⟩
    · exact ⟨_, _, positionalForm_small hexponent hpoint mark⟩

theorem positional_decimal {n : Numeral} (h : 0 < n.coefficient) (hshort : n.point ≤ 20)
    (negative : Bool) :
    ∃ s : Spelling,
      IsDecimalText ((if negative then ['-'] else []) ++ (n.positional ".0").toList) n.toRat s ∧
      s.IsShort := by
  obtain ⟨whole, fraction, hform⟩ := exists_positionalForm h ".0" 1 rfl
  have hspelled := isDecimalText_spelled negative hform.isWhole hform.allDigits none hform.value
  exact ⟨_, hform.text negative ▸ hspelled, hform.short hshort, fun hsome => by cases hsome⟩

theorem scientific_decimal {n : Numeral} (h : 0 < n.coefficient) (negative : Bool) :
    ∃ s : Spelling,
      IsDecimalText ((if negative then ['-'] else []) ++ n.scientific.toList) n.toRat s ∧
      s.IsShort := by
  have hlength : 0 < n.digits.length := by simp [n.digits_eq, Nat.length_toDigits_pos]
  have hq := cut_value (n := n) (k := 1) (n.point - 1) (by unfold point; omega)
  have hspelled := isDecimalText_spelled negative (digits_take h Nat.one_pos)
    (fun c hc => n.allDigits_digits c (List.mem_of_mem_drop hc)) (some (n.point - 1)) hq
  have htext : (if negative then ['-'] else []) ++ n.scientific.toList =
      spelledNumber negative (n.digits.take 1) (n.digits.drop 1) (some (n.point - 1)) := by
    have hpower : (if 0 ≤ n.point - 1 then "e+" else "e-").toList ++
        (toString (n.point - 1).natAbs).toList = powerChars (some (n.point - 1)) := by
      by_cases hpositive : 0 ≤ n.point - 1
      · simp only [powerChars, hpositive, if_true, Nat.toString_eq_ofList_toDigits,
          String.toList_ofList]
        rfl
      · simp only [powerChars, hpositive, if_false, Nat.toString_eq_ofList_toDigits,
          String.toList_ofList]
        rfl
    have hfraction :
        (if n.digits.length = 1 then "" else "." ++ String.ofList (n.digits.drop 1)).toList =
        if (n.digits.drop 1).isEmpty then [] else '.' :: n.digits.drop 1 := by
      have hempty : (n.digits.drop 1).isEmpty = true ↔ n.digits.length = 1 := by
        rw [List.isEmpty_iff, List.drop_eq_nil_iff]
        omega
      by_cases hone : n.digits.length = 1
      · simp only [hone, hempty.mpr hone, if_true]
        rfl
      · simp only [hone, mt hempty.mp hone, if_false, String.toList_append, String.toList_ofList]
        rfl
    simp only [scientific, spelledNumber, String.toList_append, String.toList_ofList, hfraction,
      ← hpower, List.append_assoc]
  obtain ⟨c, ds, hc, hne⟩ := toDigits_head h.ne'
  have hlead : n.digits.take 1 = [c] := by rw [n.digits_eq, hc, List.take_succ_cons, List.take_zero]
  exact ⟨_, htext ▸ hspelled, by simp, fun _ => ⟨c, hlead, hne⟩⟩

/-- Every form that a stored dump uses is read as the number that is written. -/
theorem write_decimal {n : Numeral} (h : 0 < n.coefficient) {style : NumeralStyle}
    (hstyle : style.IsStored) (negative : Bool) :
    ∃ s : Spelling,
      IsDecimalText ((if negative then ['-'] else []) ++ (n.write style).toList) n.toRat s ∧
      s.IsShort := by
  unfold write
  rw [hstyle.mark]
  by_cases hpositional : style.positional n.point = true
  · simpa only [hpositional, if_true] using positional_decimal h (hstyle.reach hpositional) negative
  · simpa only [hpositional, Bool.false_eq_true, if_false] using scientific_decimal h negative

end Numeral

end Pseudocode
