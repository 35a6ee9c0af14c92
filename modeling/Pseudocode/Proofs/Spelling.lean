import Pseudocode.Proofs.DigitRows

/-! The spelling of numbers: digits, perhaps a point and more digits, perhaps a
power of ten. It is read as these parts, and the text behind it is left alone. -/

namespace Pseudocode

def powerChars : Option Int → List Char
  | none => []
  | some power => 'e' :: (if 0 ≤ power then '+' else '-') :: Nat.toDigits 10 power.natAbs

def spelledNumber (negative : Bool) (whole fraction : List Char) (power : Option Int) : List Char :=
  (if negative then ['-'] else []) ++ whole ++ (if fraction.isEmpty then [] else '.' :: fraction) ++
    powerChars power

def endsNumber (rest : List Char) : Prop :=
  ∀ c ∈ rest.head?, c.isDigit = false ∧ c ≠ '.' ∧ c ≠ 'e' ∧ c ≠ 'E'

theorem readPower_chars (power : Int) {rest : List Char} (hr : noDigitAhead rest) :
    readPower ((if 0 ≤ power then '+' else '-') :: Nat.toDigits 10 power.natAbs ++ rest) =
      .ok (power, rest) := by
  have htake := takeWhile_digits (allDigits_toDigits power.natAbs) hr
  have hdrop := dropWhile_digits (allDigits_toDigits power.natAbs) hr
  have hne : (Nat.toDigits 10 power.natAbs).isEmpty = false := by simp [Nat.toDigits_ne_nil]
  split
  · have hpower : |power| = power := abs_of_nonneg ‹_›
    simp [readPower, htake, hdrop, hne, hpower]
  · have hpower : -|power| = power := by rw [abs_of_neg (by omega), neg_neg]
    simp [readPower, htake, hdrop, hne, hpower]

theorem endsNumber.noDigitAhead {rest : List Char} (h : endsNumber rest) : noDigitAhead rest :=
  fun c hc => (h c hc).1

theorem noDigitAhead_powerChars (power : Option Int) {rest : List Char} (hr : endsNumber rest) :
    noDigitAhead (powerChars power ++ rest) := by
  cases power with
  | none => exact hr.noDigitAhead
  | some power => simp [noDigitAhead, powerChars]

theorem readFraction_end (negative : Bool) (whole : List Char) {rest : List Char}
    (hr : endsNumber rest) :
    readFraction negative whole rest = .ok (⟨negative, whole, [], 0, false⟩, rest) := by
  cases rest with
  | nil => simp [readFraction]
  | cons c rest =>
    obtain ⟨-, hpoint, hpower, hpower'⟩ := hr c rfl
    simp [readFraction, hpoint, hpower, hpower']

theorem readFraction_digits_end (negative : Bool) (whole : List Char) {c : Char}
    {cs rest : List Char} (hf : allDigits (c :: cs)) (hr : endsNumber rest) :
    readFraction negative whole ('.' :: c :: cs ++ rest) =
      .ok (⟨negative, whole, c :: cs, 0, true⟩, rest) := by
  have htake := takeWhile_digits hf hr.noDigitAhead
  have hdrop := dropWhile_digits hf hr.noDigitAhead
  unfold readFraction
  simp only [List.cons_append] at htake hdrop ⊢
  simp only [htake, hdrop, List.isEmpty_cons, Bool.and_false, Bool.false_eq_true, if_false]
  split
  · exact absurd rfl (hr 'e' rfl).2.2.1
  · exact absurd rfl (hr 'E' rfl).2.2.2
  · rfl

theorem readFraction_spelled (negative : Bool) (whole : List Char) {fraction : List Char}
    (hf : allDigits fraction) (power : Option Int) {rest : List Char} (hr : endsNumber rest) :
    readFraction negative whole
        ((if fraction.isEmpty then [] else '.' :: fraction) ++ powerChars power ++ rest) =
      .ok (⟨negative, whole, fraction, power.getD 0, !fraction.isEmpty || power.isSome⟩, rest) := by
  cases power with
  | none =>
    cases fraction with
    | nil => simpa [powerChars] using readFraction_end negative whole hr
    | cons c cs => simpa [powerChars] using readFraction_digits_end negative whole hf hr
  | some power =>
    have hpower := readPower_chars power hr.noDigitAhead
    have hahead := noDigitAhead_powerChars (some power) hr
    have htake := takeWhile_digits hf hahead
    have hdrop := dropWhile_digits hf hahead
    simp only [powerChars, List.cons_append] at hpower htake hdrop ⊢
    cases fraction with
    | nil => simp [readFraction, hpower, Except.map]
    | cons c cs =>
      simp only [List.cons_append] at htake hdrop
      simp [readFraction, htake, hdrop, hpower, Except.map]

theorem readNumber_whole (negative : Bool) {whole tail : List Char} (hw : isWhole whole)
    (hahead : noDigitAhead tail) :
    readNumber ((if negative then ['-'] else []) ++ (whole ++ tail)) =
      readFraction negative whole tail := by
  obtain ⟨hdigits, hhead⟩ := hw
  have htake := takeWhile_digits hdigits hahead
  have hdrop := dropWhile_digits hdigits hahead
  have hfirst : ∃ c cs, whole = c :: cs ∧ c ≠ '-' := by
    rcases hhead with rfl | ⟨c, cs, rfl, -⟩
    · exact ⟨'0', [], rfl, by decide⟩
    · refine ⟨c, cs, rfl, ?_⟩
      rintro rfl
      exact absurd (hdigits '-' List.mem_cons_self) (by decide)
  obtain ⟨c, cs, rfl, hminus⟩ := hfirst
  have hzero : cs = [] ∨ c ≠ '0' := by
    rcases hhead with h | ⟨c', cs', h, hne⟩
    · exact .inl (List.cons.inj h).2
    · exact .inr ((List.cons.inj h).1 ▸ hne)
  rw [List.cons_append] at htake hdrop
  have hparts : (c :: (cs ++ tail)).takeWhile Char.isDigit = c :: cs ∧
      (c :: (cs ++ tail)).dropWhile Char.isDigit = tail := ⟨htake, hdrop⟩
  cases negative with
  | true =>
    simp only [readNumber, if_true, List.cons_append, List.nil_append, hparts]
    split
    · simp_all
    · simp_all
    · rfl
  | false =>
    simp only [readNumber, Bool.false_eq_true, if_false, List.cons_append, List.nil_append,
      List.cons.injEq, hminus, false_and, imp_self, implies_true, hparts]
    split
    · simp_all
    · simp_all
    · rfl

theorem noDigitAhead_fraction {fraction tail : List Char} (h : noDigitAhead tail) :
    noDigitAhead ((if fraction.isEmpty then [] else '.' :: fraction) ++ tail) := by
  cases fraction with
  | nil => exact h
  | cons c fraction => simp [noDigitAhead]

/-- A text that is read as a number wherever it stands. -/
def readsAs (cs : List Char) (p : NumberParts) : Prop :=
  (∃ c ds, cs = c :: ds ∧ (c = '-' ∨ c.isDigit = true)) ∧
    ∀ rest, endsNumber rest → readNumber (cs ++ rest) = .ok (p, rest)

structure Spelling where
  negative : Bool
  whole : List Char
  fraction : List Char
  power : Option Int
  isWhole : isWhole whole
  allDigits : allDigits fraction

namespace Spelling

def chars (n : Spelling) : List Char := spelledNumber n.negative n.whole n.fraction n.power

def parts (n : Spelling) : NumberParts :=
  ⟨n.negative, n.whole, n.fraction, n.power.getD 0, !n.fraction.isEmpty || n.power.isSome⟩

theorem readsAs (n : Spelling) : readsAs n.chars n.parts := by
  constructor
  · obtain ⟨c, cs, hwhole⟩ : ∃ c cs, n.whole = c :: cs := by
      rcases n.isWhole.2 with h | ⟨c, cs, h, -⟩
      · exact ⟨'0', [], h⟩
      · exact ⟨c, cs, h⟩
    rw [chars, spelledNumber, hwhole]
    cases n.negative with
    | true => exact ⟨'-', _, rfl, .inl rfl⟩
    | false => exact ⟨c, _, rfl, .inr (n.isWhole.1 c (by simp [hwhole]))⟩
  · intro rest hr
    rw [chars, spelledNumber,
      List.append_assoc, List.append_assoc, List.append_assoc, readNumber_whole n.negative n.isWhole
      (noDigitAhead_fraction (noDigitAhead_powerChars n.power hr)), ← List.append_assoc]
    exact readFraction_spelled n.negative n.whole n.allDigits n.power hr

def ofInt (i : Int) : Spelling :=
  ⟨decide (i < 0), Nat.toDigits 10 i.natAbs, [], none, isWhole_toDigits i.natAbs, allDigits_nil⟩

theorem chars_ofInt (i : Int) : (ofInt i).chars = (toString i).toList := by
  rw [Int.toString_eq_repr, Int.repr_eq_if]
  split
  · have hnot : ¬ i < 0 := by omega
    have habs : i.toNat = i.natAbs := by omega
    simp [ofInt, chars, spelledNumber, powerChars, hnot, habs]
  · have hlt : i < 0 := by omega
    have habs : (-i).toNat = i.natAbs := by omega
    simp [ofInt, chars, spelledNumber, powerChars, hlt, habs]

theorem allDigits_parts (n : Spelling) :
    Pseudocode.allDigits (n.parts.whole ++ n.parts.fraction) := by
  intro c hc
  rcases List.mem_append.mp hc with hc | hc
  · exact n.isWhole.1 c hc
  · exact n.allDigits c hc

theorem whole_ne_nil (n : Spelling) : n.whole ≠ [] := by
  rcases n.isWhole.2 with h | ⟨c, cs, h, -⟩ <;> simp [h]

/-- Whether there are few digits in front of the point, and only one if there is
an exponent. -/
structure IsShort (n : Spelling) : Prop where
  length : n.whole.length ≤ 20
  lead : n.power.isSome → ∃ c, n.whole = [c] ∧ c ≠ '0'

end Spelling

theorem readsAs_int (i : Int) :
    readsAs (toString i).toList ⟨decide (i < 0), Nat.toDigits 10 i.natAbs, [], 0, false⟩ :=
  Spelling.chars_ofInt i ▸ (Spelling.ofInt i).readsAs

end Pseudocode
