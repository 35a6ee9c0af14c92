import Pseudocode.Proofs.NumberRange

/-! Numbers whose text breaks off. What is left of a written number is no number
yet, or a number of its own: one that is not too large, and of an integer an
integer that is nearer to zero. -/

namespace Pseudocode

def IsCut (cut cs : List Char) : Prop := ∃ rest, rest ≠ [] ∧ cut ++ rest = cs

namespace IsCut

variable {cut cs ds : List Char} {c : Char}

theorem not_nil : ¬ IsCut cut [] := by
  rintro ⟨rest, hrest, h⟩
  exact hrest (List.append_eq_nil_iff.mp h).2

theorem cons (h : IsCut cut (c :: cs)) : cut = [] ∨ ∃ cut', cut = c :: cut' ∧ IsCut cut' cs := by
  obtain ⟨rest, hrest, h⟩ := h
  cases cut with
  | nil => exact .inl rfl
  | cons d cut =>
    obtain ⟨rfl, hcs⟩ := List.cons.inj h
    exact .inr ⟨cut, rfl, rest, hrest, hcs⟩

theorem cons_cons {d : Char} (h : IsCut (d :: cut) (c :: cs)) : d = c ∧ IsCut cut cs := by
  rcases h.cons with hnil | ⟨cut', hcons, hbehind⟩
  · cases hnil
  · cases hcons
    exact ⟨rfl, hbehind⟩

theorem eq_nil (h : IsCut cut [c]) : cut = [] := by
  rcases h.cons with rfl | ⟨cut', -, hnil⟩
  · rfl
  · exact absurd hnil not_nil

theorem append (h : IsCut cut (cs ++ ds)) :
    IsCut cut cs ∨ ∃ cut', cut = cs ++ cut' ∧ IsCut cut' ds := by
  obtain ⟨rest, hrest, h⟩ := h
  rcases List.append_eq_append_iff.mp h with ⟨as, hcs, hsplit⟩ | ⟨bs, hcut, hds⟩
  · by_cases has : as = []
    · subst has
      exact .inr ⟨[], by rw [hcs, List.append_nil, List.append_nil], rest, hrest, hsplit⟩
    · exact .inl ⟨as, has, hcs.symm⟩
  · exact .inr ⟨bs, hcut, rest, hrest, hds.symm⟩

theorem eq_take (h : IsCut cut cs) : ∃ n < cs.length, cut = cs.take n := by
  obtain ⟨rest, hrest, rfl⟩ := h
  have hpos := List.length_pos_iff.mpr hrest
  exact ⟨cut.length, by rw [List.length_append]; omega, by rw [List.take_left]⟩

theorem isPrefix (h : IsCut cut cs) : cut <+: cs := by
  obtain ⟨rest, -, h⟩ := h
  exact ⟨rest, h⟩

end IsCut

/-- The digits of a number that breaks off make a number a tenth as large. -/
theorem digitsValue_cut {cs ds : List Char} (h : IsCut cs ds) :
    10 * digitsValue cs ≤ digitsValue ds := by
  obtain ⟨rest, hrest, rfl⟩ := h
  have hlength : 1 ≤ rest.length := List.length_pos_iff.mpr hrest
  have hten : 10 ^ 1 ≤ 10 ^ rest.length := Nat.pow_le_pow_right (by decide) hlength
  rw [digitsValue_append]
  calc 10 * digitsValue cs = digitsValue cs * 10 ^ 1 := by omega
    _ ≤ digitsValue cs * 10 ^ rest.length := Nat.mul_le_mul_left _ hten
    _ ≤ _ := Nat.le_add_right _ _

/-- What may be left of a number whose text breaks off. -/
structure Number.Cut (whole part : Number) : Prop where
  inRange : part ≠ .outOfRange
  int : ∀ i, whole = .int i → ∃ j, part = .int j ∧ min 0 i ≤ j ∧ j ≤ max 0 i

namespace Spelling

structure Starts (m n : Spelling) : Prop where
  negative : m.negative = n.negative
  whole : m.whole <+: n.whole
  fraction : m.fraction <+: n.fraction
  power : ∀ k, m.power = some k → m.whole = n.whole ∧ ∃ l, n.power = some l ∧ 10 * k ≤ max l 0

namespace Starts

variable {m n : Spelling}

theorem inRange (h : m.Starts n) (hn : n.IsShort) (hrange : n.parts.number ≠ .outOfRange) :
    m.parts.number ≠ .outOfRange := by
  have hlength : m.whole.length ≤ n.whole.length := h.whole.length_le
  have hwhole := hn.length
  refine NumberParts.number_ne_outOfRange m.allDigits_parts ?_
  change (m.whole.length : Int) + m.power.getD 0 ≤ 300
  -- an exponent that breaks off is at most a tenth of the whole one, which is bounded
  cases hm : m.power with
  | none =>
    rw [Option.getD_none]
    omega
  | some k =>
    obtain ⟨-, l, hl, hk⟩ := h.power k hm
    obtain ⟨c, hc, hlead⟩ := hn.lead (by simp [hl])
    have hpower :=
      NumberParts.power_le (p := n.parts) hc hlead n.allDigits_parts (by simp [parts, hl]) hrange
    have hparts : n.parts.power = l := by simp [parts, hl]
    rw [Option.getD_some]
    omega

theorem digitsValue_ne_zero (h : m.whole <+: n.whole) (hn : digitsValue n.whole ≠ 0) :
    digitsValue m.whole ≠ 0 := by
  refine m.isWhole.digitsValue_ne_zero fun hzero => ?_
  rw [n.isWhole.eq_zero (hzero ▸ h)] at hn
  exact hn (digitsValue_zeros 1)

theorem int (h : m.Starts n) {i : Int} (hi : n.parts.number = .int i) :
    ∃ j, m.parts.number = .int j ∧ min 0 i ≤ j ∧ j ≤ max 0 i := by
  obtain ⟨hdecimal, hvalue⟩ := NumberParts.number_int_iff.mp hi
  have hinteger : n.fraction = [] ∧ n.power = none := by simpa [parts] using hdecimal
  have hfraction : m.fraction = [] := List.prefix_nil.mp (hinteger.1 ▸ h.fraction)
  have hpower : m.power = none := by
    cases hm : m.power with
    | none => rfl
    | some k =>
      obtain ⟨-, l, hl, -⟩ := h.power k hm
      rw [hinteger.2] at hl
      cases hl
  have hle := digitsValue_le h.whole
  have hparts : m.parts.isDecimal = false ∧ m.parts.negative = n.parts.negative ∧
      m.parts.whole = m.whole := by
    simp [parts, hfraction, hpower, h.negative]
  have hwhole : n.parts.whole = n.whole := rfl
  rw [hwhole] at hvalue
  simp only [NumberParts.number_int_iff, hparts, true_and]
  cases hnegative : n.parts.negative with
  | true =>
    simp only [hnegative, if_true] at hvalue ⊢
    have hne := digitsValue_ne_zero h.whole hvalue.1
    exact ⟨_, ⟨hne, hle.trans hvalue.2.1, rfl⟩, by omega, by omega⟩
  | false =>
    simp only [hnegative, Bool.false_eq_true, if_false] at hvalue ⊢
    exact ⟨_, ⟨hle.trans_lt hvalue.1, rfl⟩, by omega, by omega⟩

theorem cut (h : m.Starts n) (hn : n.IsShort) (hrange : n.parts.number ≠ .outOfRange) :
    n.parts.number.Cut m.parts.number :=
  ⟨h.inRange hn hrange, fun _ hi => h.int hi⟩

end Starts

abbrev signChars (n : Spelling) : List Char := if n.negative then ['-'] else []

abbrev fractionChars (n : Spelling) : List Char :=
  if n.fraction.isEmpty then [] else '.' :: n.fraction

abbrev wholePart (n : Spelling) {whole : List Char} (hfront : whole <+: n.whole)
    (hne : whole ≠ []) : Spelling :=
  ⟨n.negative, whole, [], none, n.isWhole.of_isPrefix hfront hne, allDigits_nil⟩

theorem starts_wholePart (n : Spelling) {whole : List Char} (hfront : whole <+: n.whole)
    (hne : whole ≠ []) : (n.wholePart hfront hne).Starts n :=
  ⟨rfl, hfront, List.nil_prefix, fun _ hk => by cases hk⟩

abbrev fractionPart (n : Spelling) {fraction : List Char} (hfront : fraction <+: n.fraction) :
    Spelling :=
  ⟨n.negative, n.whole, fraction, none, n.isWhole, n.allDigits.of_isPrefix hfront⟩

theorem starts_fractionPart (n : Spelling) {fraction : List Char}
    (hfront : fraction <+: n.fraction) : (n.fractionPart hfront).Starts n :=
  ⟨rfl, List.prefix_rfl, hfront, fun _ hk => by cases hk⟩

/-- What is left of a number either ends where a digit must follow, or is a number. -/
def Left (n : Spelling) (cut : List Char) : Prop :=
  readNumber cut = .error true ∨ ∃ m : Spelling, cut = m.chars ∧ m.Starts n

theorem left_whole {n : Spelling} {cut : List Char} (h : IsCut cut (n.signChars ++ n.whole)) :
    n.Left cut := by
  rcases h.append with hsign | ⟨whole, rfl, hwhole⟩
  · refine .inl ?_
    obtain rfl : cut = [] := by
      cases hn : n.negative with
      | false =>
        simp only [signChars, hn, Bool.false_eq_true, if_false] at hsign
        exact absurd hsign IsCut.not_nil
      | true =>
        simp only [signChars, hn, if_true] at hsign
        rcases hsign.cons with rfl | ⟨cut', -, hnil⟩
        · rfl
        · exact absurd hnil IsCut.not_nil
    rfl
  · by_cases hne : whole = []
    · subst hne
      refine .inl ?_
      cases hn : n.negative <;> simp [signChars, hn, readNumber]
    · refine .inr ⟨n.wholePart hwhole.isPrefix hne, ?_, n.starts_wholePart hwhole.isPrefix hne⟩
      simp [chars, spelledNumber, powerChars]

theorem left_fraction {n : Spelling} {cut : List Char}
    (h : IsCut cut (n.signChars ++ n.whole ++ n.fractionChars)) : n.Left cut := by
  rcases h.append with hwhole | ⟨cut, rfl, hfraction⟩
  · exact left_whole hwhole
  · by_cases hempty : n.fraction = []
    · simp only [fractionChars, hempty, List.isEmpty_nil, if_true] at hfraction
      exact absurd hfraction IsCut.not_nil
    · simp only [fractionChars, List.isEmpty_iff, hempty, if_false] at hfraction
      rcases hfraction.cons with rfl | ⟨fraction, rfl, hdigits⟩
      · refine .inr ⟨n.wholePart List.prefix_rfl n.whole_ne_nil, ?_, n.starts_wholePart _ _⟩
        simp [chars, spelledNumber, powerChars]
      · by_cases hne : fraction = []
        · subst hne
          refine .inl ?_
          rw [List.append_assoc, readNumber_whole n.negative n.isWhole (by simp [noDigitAhead])]
          rfl
        · refine .inr ⟨n.fractionPart hdigits.isPrefix, ?_, n.starts_fractionPart _⟩
          simp [chars, spelledNumber, powerChars, hne]

theorem powerChars_cut {l : Int} {digits : List Char} (h : IsCut digits (Nat.toDigits 10 l.natAbs))
    (hne : digits ≠ []) :
    ∃ k : Int, powerChars (some k) = 'e' :: (if 0 ≤ l then '+' else '-') :: digits ∧
      10 * k ≤ max l 0 := by
  have hwhole := isWhole_toDigits l.natAbs
  have hdigits := toDigits_digitsValue (hwhole.of_isPrefix h.isPrefix hne)
  have hle := digitsValue_cut h
  rw [digitsValue_toDigits] at hle
  have hpos : digitsValue digits ≠ 0 := by
    refine (hwhole.of_isPrefix h.isPrefix hne).digitsValue_ne_zero fun hzero => ?_
    rw [hwhole.eq_zero (hzero ▸ h.isPrefix)] at h
    exact hne h.eq_nil
  by_cases hl : 0 ≤ l
  · exact ⟨digitsValue digits, by simp [powerChars, hl, hdigits], by omega⟩
  · refine ⟨-digitsValue digits, ?_, by omega⟩
    have hk : ¬ (0 : Int) ≤ -digitsValue digits := by omega
    simp only [powerChars, hl, hk, if_false, Int.natAbs_neg, Int.natAbs_natCast, hdigits]

theorem readNumber_behind (n : Spelling) {tail : List Char} (htail : noDigitAhead tail) :
    readNumber (n.signChars ++ n.whole ++ n.fractionChars ++ tail) =
      readFraction n.negative n.whole (n.fractionChars ++ tail) := by
  rw [List.append_assoc, List.append_assoc]
  exact readNumber_whole n.negative n.isWhole (noDigitAhead_fraction htail)

theorem left_of_isCut {n : Spelling} {cut : List Char} (h : IsCut cut n.chars) : n.Left cut := by
  rw [chars, spelledNumber] at h
  rcases h.append with hfraction | ⟨cut, rfl, hpower⟩
  · exact left_fraction hfraction
  cases hn : n.power with
  | none =>
    rw [hn] at hpower
    exact absurd hpower IsCut.not_nil
  | some l =>
    rw [hn, powerChars] at hpower
    have hbreak {power : List Char} (hread : readPower power = .error true) :
        readFraction n.negative n.whole (n.fractionChars ++ 'e' :: power) = .error true := by
      have hnone : noDigitAhead ('e' :: power) := by simp [noDigitAhead]
      have htake := takeWhile_digits n.allDigits hnone
      have hdrop := dropWhile_digits n.allDigits hnone
      cases hf : n.fraction with
      | nil => simp [fractionChars, hf, readFraction, hread, Except.map]
      | cons c cs =>
        rw [hf] at htake hdrop
        simp only [List.cons_append] at htake hdrop
        simp [fractionChars, hf, readFraction, htake, hdrop, hread, Except.map]
    rcases hpower.cons with rfl | ⟨power, rfl, hsign⟩
    · refine .inr ⟨n.fractionPart List.prefix_rfl, ?_, n.starts_fractionPart _⟩
      simp [chars, spelledNumber, powerChars]
    · rcases hsign.cons with rfl | ⟨digits, rfl, hdigits⟩
      · exact .inl ((n.readNumber_behind (by simp [noDigitAhead])).trans (hbreak rfl))
      · by_cases hne : digits = []
        · subst hne
          refine .inl ((n.readNumber_behind (by simp [noDigitAhead])).trans (hbreak ?_))
          split <;> rfl
        · obtain ⟨k, hk, hle⟩ := powerChars_cut hdigits hne
          refine .inr ⟨⟨n.negative, n.whole, n.fraction, some k, n.isWhole, n.allDigits⟩, ?_, rfl,
            List.prefix_rfl, List.prefix_rfl, fun k' hk' => ⟨rfl, l, hn, Option.some.inj hk' ▸ hle⟩⟩
          rw [chars, spelledNumber, hk]

theorem readNumber_cut {n : Spelling} (hn : n.IsShort) (hrange : n.parts.number ≠ .outOfRange)
    {cut : List Char} (h : IsCut cut n.chars) :
    readNumber cut = .error true ∨ ∃ p, readNumber cut = .ok (p, []) ∧
      n.parts.number.Cut p.number := by
  rcases left_of_isCut h with hbreak | ⟨m, rfl, hstarts⟩
  · exact .inl hbreak
  · refine .inr ⟨m.parts, ?_, hstarts.cut hn hrange⟩
    have hread := m.readsAs.2 [] (by simp [endsNumber])
    rwa [List.append_nil] at hread

end Spelling

end Pseudocode
