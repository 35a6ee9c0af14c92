import Pseudocode.Proofs.Scaling
import Pseudocode.Proofs.StoredNumbers

/-! Numbers that are read from a text. Whole numbers that fit into a word are read
as such, and reals are finite: a number is out of range only if its exponent is
large, and no number is written with such an exponent. -/

namespace Pseudocode

/-- The integers that a machine word holds, signed or not. -/
def isWord (i : Int) : Prop := -2 ^ 63 ≤ i ∧ i < 2 ^ 64

namespace NumberParts

theorem real_ne_int (p : NumberParts) (i : Int) : p.real ≠ .int i := by
  unfold real
  dsimp only
  split
  · simp
  · simp

theorem number_int_iff {p : NumberParts} {i : Int} :
    p.number = .int i ↔ p.isDecimal = false ∧
      if p.negative then digitsValue p.whole ≠ 0 ∧ digitsValue p.whole ≤ 2 ^ 63 ∧
        i = -digitsValue p.whole
      else digitsValue p.whole < 2 ^ 64 ∧ i = digitsValue p.whole := by
  unfold number
  by_cases hword : digitsValue p.whole < 2 ^ 64
  · rw [takeDigits_whole hword]
    cases p.isDecimal with
    | true => simp [real_ne_int]
    | false =>
      cases p.negative with
      | false => simp [-Nat.reducePow, hword, eq_comm]
      | true =>
        by_cases hsigned : digitsValue p.whole ≠ 0 ∧ digitsValue p.whole ≤ 2 ^ 63
        · simp [-Nat.reducePow, hsigned, eq_comm]
        · have hreal : ¬ (digitsValue p.whole ≠ 0 ∧ digitsValue p.whole ≤ 2 ^ 63 ∧
              i = -digitsValue p.whole) :=
            fun h => hsigned ⟨h.1, h.2.1⟩
          simp [-Nat.reducePow, hsigned, hreal, real_ne_int]
  · have hleft : (takeDigits 0 p.whole).2.isEmpty = false := by
      rw [List.isEmpty_eq_false_iff]
      exact mt takeDigits_nil_iff.mp hword
    have hsigned : ¬ digitsValue p.whole ≤ 2 ^ 63 := by omega
    simp [-Nat.reducePow, hleft, hword, hsigned, real_ne_int]

theorem number_cases (p : NumberParts) : (∃ i, p.number = .int i) ∨ p.number = p.real := by
  unfold number
  dsimp only
  split
  · exact .inl ⟨_, rfl⟩
  · exact .inr rfl

theorem number_eq_real {p : NumberParts} (h : p.isDecimal = true) : p.number = p.real := by
  simp [number, h]

/-- Digits are taken up from the front, on either side of the point, and on the
left one all of them if they fit. -/
theorem decimal_eq (p : NumberParts) :
    ∃ front back, front <+: p.whole ∧ back <+: p.fraction ∧
      (digitsValue p.whole < 2 ^ 64 → front = p.whole) ∧
      p.decimal.coefficient = digitsValue (front ++ back) ∧
      p.decimal.exponent = p.power + (p.whole.length - front.length : Int) - back.length := by
  obtain ⟨front, hwhole, hfront⟩ := takeDigits_split 0 p.whole
  obtain ⟨back, hfraction, hback⟩ := takeDigits_split (takeDigits 0 p.whole).1 p.fraction
  have hlengths := congrArg List.length hwhole
  have hlengths' := congrArg List.length hfraction
  rw [List.length_append] at hlengths hlengths'
  refine ⟨front, back, ⟨_, hwhole.symm⟩, ⟨_, hfraction.symm⟩, fun hword => ?_, ?_, ?_⟩
  · rw [takeDigits_nil_iff.mpr hword, List.append_nil] at hwhole
    exact hwhole.symm
  · rw [digitsValue_append, ← Nat.zero_add (digitsValue front),
      ← Nat.zero_mul (10 ^ front.length), ← hfront]
    exact hback
  · change p.power + _ + _ - _ = _
    omega

theorem decimal_coefficient_lt (p : NumberParts) : p.decimal.coefficient < 2 ^ 64 :=
  takeDigits_lt (takeDigits_lt (by decide) _) _

theorem decimal_lt {p : NumberParts} (hdigits : allDigits (p.whole ++ p.fraction)) :
    p.decimal.toRat < 10 ^ (p.whole.length + p.power) := by
  obtain ⟨front, back, hfront, hback, -, hcoefficient, hexponent⟩ := p.decimal_eq
  have hall : allDigits (front ++ back) := by
    intro c hc
    rcases List.mem_append.mp hc with hc | hc
    · exact hdigits c (List.mem_append_left _ (hfront.subset hc))
    · exact hdigits c (List.mem_append_right _ (hback.subset hc))
  have hlt : (digitsValue (front ++ back) : ℚ) < 10 ^ ((front ++ back).length : Int) := by
    rw [zpow_natCast]
    exact_mod_cast digitsValue_lt hall
  rw [List.length_append] at hlt
  have hpower : (10 : ℚ) ^ (p.whole.length + p.power) =
      10 ^ ((front.length + back.length : Nat) : Int) * 10 ^ p.decimal.exponent := by
    rw [← zpow_add₀ (by norm_num), hexponent]
    congr 1
    omega
  rw [Numeral.toRat, hcoefficient, hpower]
  exact mul_lt_mul_of_pos_right hlt (by positivity)

/-- Digits behind the point that are not taken up would only add to the number. -/
theorem decimal_le {p : NumberParts} (hword : digitsValue p.whole < 2 ^ 64) :
    p.decimal.toRat ≤ digitsValue (p.whole ++ p.fraction) * 10 ^ (p.power - p.fraction.length) := by
  obtain ⟨front, back, -, ⟨left, hfraction⟩, hall, hcoefficient, hexponent⟩ := p.decimal_eq
  obtain rfl := hall hword
  have hle :
      digitsValue (p.whole ++ back) * 10 ^ left.length ≤ digitsValue (p.whole ++ p.fraction) := by
    rw [← hfraction, ← List.append_assoc, digitsValue_append (p.whole ++ back)]
    exact Nat.le_add_right _ _
  have hpower :
      (10 : ℚ) ^ p.decimal.exponent = 10 ^ left.length * 10 ^ (p.power - p.fraction.length) := by
    rw [← zpow_natCast, ← zpow_add₀ (by norm_num), hexponent, ← hfraction, List.length_append]
    congr 1
    omega
  rw [Numeral.toRat, hcoefficient, hpower, ← mul_assoc]
  exact mul_le_mul_of_nonneg_right (by exact_mod_cast hle) (by positivity)

theorem number_ne_outOfRange_of_le {p : NumberParts}
    (h : p.decimal.toRat ≤ Binary64.safeLimit) : p.number ≠ .outOfRange := by
  have hfinite := Binary64.scaled_lt p.decimal_coefficient_lt h
  rcases p.number_cases with ⟨i, hint⟩ | hreal
  · simp [hint]
  · simp [hreal, real, hfinite.ne]

theorem number_ne_outOfRange {p : NumberParts} (hdigits : allDigits (p.whole ++ p.fraction))
    (h : p.whole.length + p.power ≤ 300) : p.number ≠ .outOfRange := by
  refine number_ne_outOfRange_of_le ((decimal_lt hdigits).le.trans ?_)
  calc (10 : ℚ) ^ (p.whole.length + p.power) ≤ 10 ^ (300 : Int) :=
    zpow_le_zpow_right₀ (by norm_num) h
    _ = (10 ^ 3) ^ 100 := by rw [← pow_mul, zpow_ofNat]
    _ ≤ (2 ^ 10) ^ 100 := pow_le_pow_left₀ (by norm_num) (by norm_num) _
    _ = 2 ^ 29 * 2 ^ (971 : Int) := by rw [← pow_mul, zpow_ofNat, ← pow_add]
    _ ≤ Binary64.safeLimit := mul_le_mul_of_nonneg_right (by norm_num) (by positivity)

/-- The exponent of a number that is not too large is not too large either. -/
theorem power_le {p : NumberParts} {c : Char} (hwhole : p.whole = [c]) (hc : c ≠ '0')
    (hdigits : allDigits (p.whole ++ p.fraction)) (hdecimal : p.isDecimal = true)
    (h : p.number ≠ .outOfRange) : p.power ≤ 400 := by
  obtain ⟨front, back, -, hback, hall, hcoefficient, hexponent⟩ := p.decimal_eq
  have hlead : digitsValue p.whole < 2 ^ 64 := by
    have hlt := digitsValue_lt (hdigits.of_isPrefix (List.prefix_append _ _))
    rw [hwhole] at hlt ⊢
    exact hlt.trans (by simp)
  obtain rfl := hall hlead
  have hfew : 10 ^ back.length ≤ p.decimal.coefficient := by
    rw [hcoefficient, hwhole, List.singleton_append]
    refine le_digitsValue ?_ hc
    rw [hwhole, List.singleton_append] at hdigits
    exact hdigits.of_isPrefix (List.cons_prefix_cons.mpr ⟨rfl, hback⟩)
  have hlength : back.length < 20 := by
    refine (Nat.pow_lt_pow_iff_right (by decide : 1 < 10)).mp ?_
    have hlt := p.decimal_coefficient_lt
    omega
  have hne : p.decimal.coefficient ≠ 0 := by
    have hpos : 0 < 10 ^ back.length := by positivity
    omega
  by_contra hlarge
  have hinfinite := Binary64.scaled_large hne (by rw [hexponent, Binary64.largestTen]; omega)
  exact h (by rw [number_eq_real hdecimal, real, hinfinite, if_pos rfl])

end NumberParts

theorem number_int {i : Int} (h : isWord i) :
    NumberParts.number ⟨decide (i < 0), Nat.toDigits 10 i.natAbs, [], 0, false⟩ = .int i := by
  obtain ⟨hlow, hhigh⟩ := h
  refine NumberParts.number_int_iff.mpr ⟨rfl, ?_⟩
  simp only [digitsValue_toDigits, decide_eq_true_eq]
  split
  · exact ⟨by omega, by omega, by omega⟩
  · exact ⟨by omega, by omega⟩

/-- Whether a number is one that is read from a text: an integer is no larger than
a word, and a real is finite. -/
def Number.fits : Number → Prop
  | .int i => isWord i
  | .real x => x.isFinite
  | .outOfRange => True

theorem Binary64.isFinite_ofPattern {bits : Nat} (h : bits < BinaryFormat.binary64.infinityBits)
    (negative : Bool) :
    (Binary64.ofPattern (BinaryFormat.binary64.withSign negative bits)).isFinite := by
  have hmagnitude : ∃ s e, BinaryFormat.binary64.magnitude bits = .finite s e := by
    rw [BinaryFormat.magnitude, if_pos h]
    split
    · exact ⟨_, _, rfl⟩
    · exact ⟨_, _, rfl⟩
  obtain ⟨s, e, hfinite⟩ := hmagnitude
  rw [Binary64.isFinite, Binary64.storedText, value_ofPattern h, hfinite]
  rfl

theorem Binary64.isFinite_ofInt {i : Int} (h : isWord i) : (Binary64.ofInt i).isFinite := by
  refine isFinite_ofPattern (Binary64.nearest_lt Nat.one_pos ?_) _
  have hlt : (i.natAbs : ℚ) < 2 ^ 65 := by
    obtain ⟨hlow, hhigh⟩ := h
    have hnat : i.natAbs < 2 ^ 65 := by omega
    exact_mod_cast hnat
  rw [Nat.cast_one, div_one]
  exact hlt.trans Binary64.overflowLimit_large

theorem NumberParts.number_fits (p : NumberParts) : p.number.fits := by
  rcases p.number_cases with ⟨i, hint⟩ | hreal
  · rw [hint]
    obtain ⟨-, hi⟩ := NumberParts.number_int_iff.mp hint
    cases hnegative : p.negative with
    | true =>
      rw [hnegative, if_pos rfl] at hi
      exact ⟨by omega, by omega⟩
    | false =>
      rw [hnegative, if_neg (by simp)] at hi
      exact ⟨by omega, by omega⟩
  · rw [hreal, NumberParts.real]
    split
    · trivial
    · exact Binary64.isFinite_ofPattern (Nat.lt_of_le_of_ne (Binary64.scaled_le _) ‹_›) _

theorem toString_length {n k : Nat} (hlow : 10 ^ k ≤ n) (hhigh : n < 10 ^ (k + 1)) :
    (toString n).length = k + 1 := by
  have hle : (toString n).length ≤ k + 1 := (Nat.length_repr_le_iff k.succ_pos).mpr hhigh
  have hpos : 0 < (toString n).length := Nat.length_repr_pos
  refine le_antisymm hle (not_lt.mp fun hlt => ?_)
  have hfew : n < 10 ^ (toString n).length := (Nat.length_repr_le_iff hpos).mp le_rfl
  have hpow : 10 ^ (toString n).length ≤ 10 ^ k := Nat.pow_le_pow_right (by decide) (by omega)
  omega

namespace BinaryFormat

/-- The shortest decimals of the three largest numbers. They have 309 digits in
front of the point. -/
def topDecimal (i : Nat) : Numeral :=
  ((Neighbourhood.ofFinite binary64 (2 ^ 53 - 3 + i) 971).firstOnGrid .even 17 308).strip 17

theorem shortest_top {i : Nat} (hi : i < 3) :
    binary64.shortest .even (2 ^ 53 - 3 + i) 971 = topDecimal i := by
  have hdigits : ∀ i < 3, (Neighbourhood.ofFinite binary64 (2 ^ 53 - 3 + i) 971).den = 1 ∧
      10 ^ 308 ≤ (Neighbourhood.ofFinite binary64 (2 ^ 53 - 3 + i) 971).value ∧
      (Neighbourhood.ofFinite binary64 (2 ^ 53 - 3 + i) 971).value < 10 ^ (308 + 1) := by
    decide +kernel
  obtain ⟨hden, hlow, hhigh⟩ := hdigits i hi
  have hpoint : (Neighbourhood.ofFinite binary64 (2 ^ 53 - 3 + i) 971).pointPosition = 309 := by
    have hone : 1 ≤ (Neighbourhood.ofFinite binary64 (2 ^ 53 - 3 + i) 971).value :=
      (Nat.one_le_pow _ _ (by decide)).trans hlow
    rw [Neighbourhood.pointPosition, hden, if_pos hone, Nat.div_one, toString_length hlow hhigh]
    rfl
  have henough : binary64.enoughDigits = 17 := by decide +kernel
  rw [shortest, hpoint, henough]
  rfl

/-- They are so near to the limit that they are looked at one by one. -/
theorem top_inRange :
    ∀ i < 3, ∀ sign ∈ [[], ['-']],
      (readNumber (sign ++ ((topDecimal i).write .wide).toList)).toOption.map (·.1.number) ≠
        some .outOfRange := by
  decide +kernel

theorem eq_top {bits s : Nat} {e : Int} (h : binary64.magnitude bits = .finite s e)
    (hlarge : Binary64.safeLimit < ((s + 1 / 2) * 2 ^ e : ℚ)) :
    e = 971 ∧ ∃ i < 3, s = 2 ^ 53 - 3 + i := by
  obtain ⟨hbits, hfinite, hnarrow, -, hnormal⟩ := magnitude_finite h
  have hinfinity : binary64.infinityBits = 2047 * 2 ^ 52 := rfl
  have hbinade : binary64.binade = 2 ^ 52 := rfl
  have hleast : binary64.leastExponent = -1074 := by decide
  rw [hbits, hinfinity, hbinade, hleast] at hfinite
  rw [hbinade] at hnarrow hnormal
  rw [hleast] at hnormal
  have hs : (s : ℚ) + 1 ≤ 2 ^ 53 := by exact_mod_cast (by omega : s + 1 ≤ 2 ^ 53)
  have he : e = 971 := by
    by_contra hne
    have hle : (2 : ℚ) ^ e ≤ 2 ^ (970 : Int) := zpow_le_zpow_right₀ one_le_two (by omega)
    have hpow : (2 : ℚ) ^ (971 : Int) = 2 * 2 ^ (970 : Int) := zpow_one_add₀ two_ne_zero 970
    have hstep : (0 : ℚ) < 2 ^ (970 : Int) := by positivity
    refine absurd hlarge (not_lt.mpr ?_)
    calc (s + 1 / 2 : ℚ) * 2 ^ e ≤ 2 ^ 53 * 2 ^ (970 : Int) :=
          mul_le_mul (by linarith) hle (by positivity) (by positivity)
      _ ≤ (2 ^ 53 - 3) * 2 * 2 ^ (970 : Int) := mul_le_mul_of_nonneg_right (by norm_num) hstep.le
      _ = Binary64.safeLimit := by rw [Binary64.safeLimit, hpow, mul_assoc]
  rw [he, Binary64.safeLimit] at hlarge
  have hsignificand := lt_of_mul_lt_mul_right hlarge (by positivity)
  have hlow : 2 ^ 53 - 3 ≤ s := by
    have hlt : (2 ^ 53 - 3 : ℚ) < s + 1 := by linarith
    have hcast : ((2 ^ 53 - 3 : Nat) : ℚ) < (s + 1 : Nat) := by
      push_cast
      linarith
    have hnat := Nat.cast_lt.mp hcast
    omega
  exact ⟨he, s - (2 ^ 53 - 3), by omega, by omega⟩

end BinaryFormat

/-- Digits without an exponent are few, and one digit is small. -/
theorem Spelling.IsShort.whole_lt {n : Spelling} (h : n.IsShort)
    (hlarge : 20 < (n.parts.whole.length + n.parts.power : Int)) :
    digitsValue n.parts.whole < 2 ^ 64 := by
  have hlength := h.length
  have hpower : n.power.isSome := by
    cases hn : n.power with
    | some k => rfl
    | none =>
      simp only [parts, hn, Option.getD_none] at hlarge
      omega
  obtain ⟨c, hc, -⟩ := h.lead hpower
  have hdigits := digitsValue_lt n.isWhole.1
  change digitsValue n.whole < 2 ^ 64
  rw [hc] at hdigits ⊢
  exact hdigits.trans (by simp)

theorem Binary64.inRange_storedText {x : Binary64} {t : String} (h : x.storedText = some t) :
    ∃ n : Spelling, t.toList = n.chars ∧ n.IsShort ∧ n.parts.number ≠ .outOfRange := by
  obtain ⟨n, s, e, q, hx, hdecimal, hshort, hq⟩ := x.spelled_storedText h
  refine ⟨n, hdecimal.text, hshort, ?_⟩
  by_cases hlow : (n.parts.whole.length + n.parts.power : Int) ≤ 300
  · exact NumberParts.number_ne_outOfRange n.allDigits_parts hlow
  have hwhole := hshort.whole_lt (by omega)
  have hle : n.parts.decimal.toRat ≤ q := (NumberParts.decimal_le hwhole).trans_eq hdecimal.value
  by_cases htop : q ≤ Binary64.safeLimit
  · exact NumberParts.number_ne_outOfRange_of_le (hle.trans htop)
  · rw [not_le] at htop
    obtain ⟨hs, -, hnear, -⟩ : 0 < s ∧ BinaryFormat.binary64.isNear s e q := by
      refine hq.resolve_left fun hzero => absurd htop (not_lt.mpr ?_)
      rw [hzero.2]
      exact mul_nonneg (by norm_num) (by positivity)
    have hbits : BinaryFormat.binary64.magnitude (x.bits.toNat % BinaryFormat.binary64.signWeight) =
      .finite s e := hx
    obtain ⟨rfl, i, hi, rfl⟩ := BinaryFormat.eq_top hbits (htop.trans_le hnear)
    have htext : t.toList = (if x.value.negative then ['-'] else []) ++
        ((BinaryFormat.topDecimal i).write .wide).toList := by
      rw [storedText, hx, Option.some.injEq] at h
      rw [← h, BinaryFormat.write_finite _ _ hx hs, ← BinaryFormat.shortest_top hi]
      rfl
    have hread := n.readsAs.2 [] (by simp [endsNumber])
    have hcheck :=
      BinaryFormat.top_inRange i hi (if x.value.negative then ['-'] else []) (by split <;> simp)
    rw [← htext, hdecimal.text, ← List.append_nil n.chars, hread] at hcheck
    exact fun hrange => hcheck (congrArg some hrange)

end Pseudocode
