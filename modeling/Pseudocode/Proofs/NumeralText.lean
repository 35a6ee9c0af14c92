import Mathlib.Data.List.TakeWhile
import Pseudocode.Decimal.Numeral
import Pseudocode.Text.Quoted

/-! The characters that written numbers consist of. -/

namespace Pseudocode

theorem isDigit_of_mem_toString {n : Nat} {c : Char} (h : c ∈ (toString n).toList) :
    c.isDigit = true := by
  rw [Nat.toString_eq_ofList_toDigits, String.toList_ofList] at h
  exact Nat.isDigit_of_mem_toDigits (by decide) (by decide) h

def numeralMarks : List Char := ['+', '-', '.', 'e', 'N', 'a', 'i', 'n', 'f']

/-- Whether a text holds nothing but digits and the marks of numbers. -/
def isNumeralText (s : String) : Prop := ∀ c ∈ s.toList, c.isDigit = true ∨ c ∈ numeralMarks

instance (s : String) : Decidable (isNumeralText s) :=
  List.decidableBAll (fun c : Char => c.isDigit = true ∨ c ∈ numeralMarks) s.toList

@[simp] theorem isNumeralText_append (s t : String) :
    isNumeralText (s ++ t) ↔ isNumeralText s ∧ isNumeralText t := by
  simp [isNumeralText, or_imp, forall_and]

theorem isNumeralText_ofList {cs : List Char} (h : ∀ c ∈ cs, c.isDigit = true) :
    isNumeralText (String.ofList cs) := by
  intro c hc
  exact .inl (h c (by simpa using hc))

@[simp] theorem isNumeralText_nat (n : Nat) : isNumeralText (toString n) :=
  fun _ h => .inl (isDigit_of_mem_toString h)

@[simp] theorem isNumeralText_int (i : Int) : isNumeralText (toString i) := by
  have hminus : isNumeralText "-" := by decide
  rw [Int.toString_eq_repr, Int.repr_eq_if]
  split
  · exact isNumeralText_nat i.toNat
  · exact (isNumeralText_append "-" _).mpr ⟨hminus, isNumeralText_nat (-i).toNat⟩

@[simp] theorem isNumeralText_natRepr (n : Nat) : isNumeralText n.repr := isNumeralText_nat n

@[simp] theorem isNumeralText_intRepr (i : Int) : isNumeralText i.repr := isNumeralText_int i

theorem mem_hexDigits_byte (value : UInt8) :
    ∀ c ∈ hexDigits 'A' value.toNat, c ∈ "0123456789ABCDEF".toList := by
  have hall : ∀ n < 256, (hexDigits 'A' n).all (· ∈ "0123456789ABCDEF".toList) := by decide +kernel
  simpa using hall _ value.toNat_lt

namespace Numeral

theorem isDigit_of_mem_digits {n : Numeral} {c : Char} (h : c ∈ n.digits) : c.isDigit = true :=
  isDigit_of_mem_toString h

@[simp] theorem isNumeralText_zeros (n : Nat) : isNumeralText (zeros n) :=
  isNumeralText_ofList fun c hc => by rw [List.eq_of_mem_replicate hc]; decide

theorem isNumeralText_positional {mark : String} (h : isNumeralText mark) (n : Numeral) :
    isNumeralText (n.positional mark) := by
  have hdot : isNumeralText "." := by decide
  have hlead : isNumeralText "0." := by decide
  have hdigits : isNumeralText (String.ofList n.digits) :=
    isNumeralText_ofList fun _ => isDigit_of_mem_digits
  unfold positional
  split
  · simp [hdigits, h]
  · split
    · have htake : isNumeralText (String.ofList (n.digits.take n.point.toNat)) :=
        isNumeralText_ofList fun _ hc => isDigit_of_mem_digits (List.mem_of_mem_take hc)
      have hdrop : isNumeralText (String.ofList (n.digits.drop n.point.toNat)) :=
        isNumeralText_ofList fun _ hc => isDigit_of_mem_digits (List.mem_of_mem_drop hc)
      simp [htake, hdot, hdrop]
    · simp [hlead, hdigits]

theorem isNumeralText_scientific (n : Numeral) : isNumeralText n.scientific := by
  have hempty : isNumeralText "" := by decide
  have hdot : isNumeralText "." := by decide
  have hplus : isNumeralText "e+" := by decide
  have hminus : isNumeralText "e-" := by decide
  have htake : isNumeralText (String.ofList (n.digits.take 1)) :=
    isNumeralText_ofList fun _ hc => isDigit_of_mem_digits (List.mem_of_mem_take hc)
  have hdrop : isNumeralText (String.ofList (n.digits.drop 1)) :=
    isNumeralText_ofList fun _ hc => isDigit_of_mem_digits (List.mem_of_mem_drop hc)
  simp only [scientific, isNumeralText_append, isNumeralText_nat, htake, and_true, true_and]
  refine ⟨?_, ?_⟩
  · split
    · exact hempty
    · exact (isNumeralText_append "." _).mpr ⟨hdot, hdrop⟩
  · split
    · exact hplus
    · exact hminus

theorem isNumeralText_write {style : NumeralStyle} (h : isNumeralText style.wholeMark)
    (n : Numeral) : isNumeralText (n.write style) := by
  unfold write
  split
  · exact isNumeralText_positional h n
  · exact isNumeralText_scientific n

end Numeral

theorem BinaryFormat.isNumeralText_write (f : BinaryFormat) {style : NumeralStyle}
    (h : isNumeralText style.wholeMark) (x : Signed) : isNumeralText (f.write style x) := by
  have hsign : isNumeralText (if x.negative then "-" else "") := by split <;> decide
  have hnan : isNumeralText "NaN" := by decide
  have hinf : isNumeralText "inf" := by decide
  have hzero : isNumeralText "0" := by decide
  simp only [BinaryFormat.write]
  generalize (if x.negative then "-" else "") = sign at hsign
  split
  · exact hnan
  · simp [hsign, hinf]
  · simp [hsign, hzero, h]
  · simp [hsign, Numeral.isNumeralText_write h]

@[simp] theorem Binary32.isNumeralText_plainText (x : Binary32) : isNumeralText x.plainText :=
  BinaryFormat.isNumeralText_write _ (by decide) _

@[simp] theorem Binary64.isNumeralText_plainText (x : Binary64) : isNumeralText x.plainText :=
  BinaryFormat.isNumeralText_write _ (by decide) _

end Pseudocode
