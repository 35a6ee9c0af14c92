import Pseudocode.Proofs.WrittenNumbers

/-! Stored numbers as they are written: the text of a finite number is a spelling
of a decimal near it. -/

namespace Pseudocode

namespace BinaryFormat

theorem magnitude_finite {f : BinaryFormat} {bits s : Nat} {e : Int}
    (h : f.magnitude bits = .finite s e) :
    bits = (e - f.leastExponent).toNat * f.binade + s ∧ bits < f.infinityBits ∧ s < 2 * f.binade ∧
      f.leastExponent ≤ e ∧ (f.binade ≤ s ∨ e = f.leastExponent) := by
  have hb := f.binade_pos
  unfold magnitude at h
  split at h
  · split at h
    · cases h
      refine ⟨by simp, ‹_›, by omega, le_refl _, .inr rfl⟩
    · cases h
      have hmod := Nat.mod_lt bits hb
      have hsplit := Nat.div_add_mod bits f.binade
      have hone : 1 ≤ bits / f.binade := (Nat.one_le_div_iff hb).mpr (by omega)
      have hexponent : (f.leastExponent + (bits / f.binade : Nat) - 1 - f.leastExponent).toNat =
          bits / f.binade - 1 := by omega
      refine ⟨?_, ‹_›, by omega, by omega, .inl (by omega)⟩
      rw [hexponent, Nat.sub_mul, Nat.one_mul]
      have hle : f.binade ≤ bits / f.binade * f.binade := Nat.le_mul_of_pos_left _ hone
      rw [Nat.mul_comm f.binade] at hsplit
      omega
  · split at h <;> cases h

theorem isNumber_of_magnitude {f : BinaryFormat} {bits s : Nat} {e : Int}
    (h : f.magnitude bits = .finite s e) (hs : 0 < s) : f.IsNumber s e := by
  obtain ⟨hbits, hfinite, hnarrow, hle, hnormal⟩ := magnitude_finite h
  exact ⟨hs, hnarrow, hle, hnormal, hbits ▸ hfinite⟩

theorem shortest_pos {f : BinaryFormat} {s : Nat} {e : Int} (h : f.IsNumber s e)
    (hp : 1 ≤ f.precision) (tie : Tie) : 0 < (f.shortest tie s e).coefficient := by
  refine Nat.pos_of_ne_zero fun hzero => ?_
  have hpos := (shortest_near h hp tie).pos h
  simp [Numeral.toRat, hzero] at hpos

theorem sign_toList (negative : Bool) :
    (if negative then "-" else "").toList = if negative then ['-'] else [] := by
  split <;> rfl

theorem write_finite (f : BinaryFormat) (style : NumeralStyle) {x : Signed} {s : Nat} {e : Int}
    (hx : x.magnitude = .finite s e) (hs : 0 < s) :
    (f.write style x).toList =
      (if x.negative then ['-'] else []) ++ ((f.shortest style.tie s e).write style).toList := by
  obtain ⟨s, rfl⟩ : ∃ k, s = k + 1 := ⟨s - 1, by omega⟩
  simp [write, hx, sign_toList]

theorem write_decimal {f : BinaryFormat} (hp : 1 ≤ f.precision) {style : NumeralStyle}
    (hstyle : style.IsStored) {x : Signed} {bits s : Nat} {e : Int} (hx : x.magnitude = .finite s e)
    (hm : f.magnitude bits = .finite s e) :
    ∃ (n : Spelling) (q : ℚ), IsDecimalText (f.write style x).toList q n ∧ n.IsShort ∧
      (s = 0 ∧ q = 0 ∨ 0 < s ∧ f.isNear s e q) := by
  rcases Nat.eq_zero_or_pos s with rfl | hs
  · have htext : (f.write style x).toList = spelledNumber x.negative ['0'] ['0'] none := by
      simp [write, hx, hstyle.mark, sign_toList, spelledNumber, powerChars]
    have hzero : digitsValue (['0'] ++ ['0']) = 0 := digitsValue_zeros 2
    have hq : (digitsValue (['0'] ++ ['0']) : ℚ) *
        10 ^ ((none : Option Int).getD 0 - ['0'].length) = 0 := by
      rw [hzero]
      simp
    have hdecimal := isDecimalText_spelled x.negative isWhole_zero allDigits_zero none hq
    exact ⟨_, 0, htext ▸ hdecimal, ⟨by simp, fun hsome => by cases hsome⟩, .inl ⟨rfl, rfl⟩⟩
  · have hnumber := isNumber_of_magnitude hm hs
    obtain ⟨n, hdecimal, hshort⟩ :=
      Numeral.write_decimal (shortest_pos hnumber hp style.tie) hstyle x.negative
    exact ⟨n, _, write_finite f style hx hs ▸ hdecimal, hshort,
      .inr ⟨hs, shortest_near hnumber hp style.tie⟩⟩

end BinaryFormat

theorem Binary64.value_ofPattern {bits : Nat} (h : bits < BinaryFormat.binary64.infinityBits)
    (negative : Bool) :
    (Binary64.ofPattern (BinaryFormat.binary64.withSign negative bits)).value =
      ⟨negative, BinaryFormat.binary64.magnitude bits⟩ := by
  have hweight : BinaryFormat.binary64.signWeight = 2 ^ 63 := by decide
  have hinfinity : BinaryFormat.binary64.infinityBits < 2 ^ 63 := by decide
  rw [Binary64.value, BinaryFormat.decode, Binary64.ofPattern, UInt64.toNat_ofNat',
    BinaryFormat.withSign, hweight]
  cases negative with
  | true =>
    have hsign : 2 ^ 63 ≤ (2 ^ 63 + bits) % 2 ^ 64 := by omega
    have hrest : (2 ^ 63 + bits) % 2 ^ 64 % 2 ^ 63 = bits := by omega
    simp only [if_true, hsign, hrest, decide_true]
  | false =>
    have hsign : ¬ 2 ^ 63 ≤ bits % 2 ^ 64 := by omega
    have hrest : bits % 2 ^ 64 % 2 ^ 63 = bits := by omega
    simp only [Bool.false_eq_true, if_false, hsign, hrest, decide_false]

theorem Binary64.withSign_value (x : Binary64) :
    Binary64.ofPattern (BinaryFormat.binary64.withSign x.value.negative
      (x.bits.toNat % BinaryFormat.binary64.signWeight)) = x := by
  have hweight : BinaryFormat.binary64.signWeight = 2 ^ 63 := by decide
  have hbits := x.bits.toNat_lt
  have hback : BinaryFormat.binary64.withSign x.value.negative
      (x.bits.toNat % BinaryFormat.binary64.signWeight) = x.bits.toNat := by
    unfold Binary64.value BinaryFormat.decode BinaryFormat.withSign
    rw [hweight]
    by_cases hsign : 2 ^ 63 ≤ x.bits.toNat
    · simp only [hsign, decide_true, if_true]
      omega
    · simp only [hsign, decide_false, Bool.false_eq_true, if_false]
      omega
  rw [hback, Binary64.ofPattern, UInt64.ofNat_toNat]

def Binary64.isFinite (x : Binary64) : Prop := x.storedText.isSome

theorem Binary64.spelled_storedText {x : Binary64} {t : String} (h : x.storedText = some t) :
    ∃ (n : Spelling) (s : Nat) (e : Int) (q : ℚ), x.value.magnitude = .finite s e ∧
      IsDecimalText t.toList q n ∧ n.IsShort ∧
      (s = 0 ∧ q = 0 ∨ 0 < s ∧ BinaryFormat.binary64.isNear s e q) := by
  unfold Binary64.storedText at h
  split at h
  · next s e hx =>
    cases h
    obtain ⟨n, q, hdecimal, hshort, hq⟩ := BinaryFormat.write_decimal (f := .binary64) (by decide)
      NumeralStyle.isStored_wide (x := x.value) hx hx
    exact ⟨n, s, e, q, hx, hdecimal, hshort, hq⟩
  · cases h

theorem Binary32.spelled_storedText {x : Binary32} {t : String} (h : x.storedText = some t) :
    ∃ n : Spelling, t.toList = n.chars ∧ n.IsShort := by
  unfold Binary32.storedText at h
  split at h
  · cases h
    obtain ⟨n, q, hdecimal, hshort, -⟩ := BinaryFormat.write_decimal (f := .binary32) (by decide)
      NumeralStyle.isStored_narrow (x := x.value) ‹_› ‹_›
    exact ⟨n, hdecimal.text, hshort⟩
  · cases h

theorem Binary64.reads_storedText {x : Binary64} {t : String} (h : x.storedText = some t) :
    ∃ p, readsAs t.toList p := by
  obtain ⟨n, _, _, _, -, hdecimal, -⟩ := Binary64.spelled_storedText h
  exact ⟨n.parts, hdecimal.text ▸ n.readsAs⟩

theorem Binary32.reads_storedText {x : Binary32} {t : String} (h : x.storedText = some t) :
    ∃ p, readsAs t.toList p := by
  obtain ⟨n, htext, -⟩ := Binary32.spelled_storedText h
  exact ⟨n.parts, htext ▸ n.readsAs⟩

end Pseudocode
