import Pseudocode.Proofs.NumberRange

/-! The numbers in the draft of a text. However far the text is read, integers are
no larger than a word and reals are finite. -/

namespace Pseudocode

mutual

def Draft.fits : Draft → Prop
  | .number n => n.fits
  | .list _ items _ => itemsFit items
  | .object _ members _ => membersFit members
  | _ => True

def itemsFit : List Draft → Prop
  | [] => True
  | d :: rest => d.fits ∧ itemsFit rest

def membersFit : List (Quotation × Draft) → Prop
  | [] => True
  | (_, d) :: rest => d.fits ∧ membersFit rest

end

theorem readScalar_fits (cs : List Char) : (readScalar cs).1.fits := by
  have hword {d : Draft} (hd : d.fits) (r : Except Bool (List Char)) :
      (readScalar.word d r).1.fits := by
    cases r with
    | ok rest => exact hd
    | error atEnd => exact trivial
  unfold readScalar
  split
  · exact trivial
  · exact trivial
  · exact hword (d := .null) trivial _
  · exact hword (d := .bool true) trivial _
  · exact hword (d := .bool false) trivial _
  · split
    · cases readNumber _ with
      | ok r => exact r.1.number_fits
      | error atEnd => exact trivial
    · exact trivial

/-- However far a text is read, the numbers in it are in range. -/
theorem read_fits (fuel : Nat) :
    (∀ depth cs, (readValue fuel depth cs).1.fits) ∧
    (∀ depth first cs, itemsFit (readItems fuel depth first cs).1.1) ∧
    (∀ depth cs, itemsFit (readItem fuel depth cs).1.1) ∧
    (∀ depth first cs, membersFit (readMembers fuel depth first cs).1.1) ∧
    ∀ depth cs, membersFit (readMember fuel depth cs).1.1 := by
  -- the five readers call each other with one step less
  induction fuel with
  | zero =>
    simp [readValue, readItems, readItem, readMembers, readMember, Draft.fits, itemsFit, membersFit]
  | succ fuel ih =>
    obtain ⟨hvalue, hitems, hitem, hmembers, hmember⟩ := ih
    refine ⟨fun depth cs => ?_, fun depth first cs => ?_, fun depth cs => ?_, fun depth first cs =>
      ?_, fun depth cs => ?_⟩
    · rw [readValue]
      split
      · exact hitems _ _ _
      · exact hmembers _ _ _
      · exact readScalar_fits _
    · rw [readItems]
      split
      · exact trivial
      · exact trivial
      · split
        · exact hitem _ _
        · split
          · split
            · exact trivial
            · exact hitem _ _
          · exact trivial
    · rw [readItem]
      have hv := hvalue depth cs
      split
      · next d heq => exact ⟨by rwa [heq] at hv, trivial⟩
      · next d rest heq => exact ⟨by rwa [heq] at hv, hitems _ _ _⟩
    · rw [readMembers]
      split
      · exact trivial
      · exact trivial
      · split
        · split
          · exact hmember _ _
          · exact trivial
        · split
          · split
            · exact trivial
            · exact hmember _ _
            · exact trivial
            · exact trivial
          · exact trivial
    · rw [readMember]
      split
      · exact ⟨trivial, trivial⟩
      · split
        · exact ⟨trivial, trivial⟩
        · next cs' _ =>
          have hv := hvalue depth cs'
          split
          · next d heq => exact ⟨by rwa [heq] at hv, trivial⟩
          · next d rest heq => exact ⟨by rwa [heq] at hv, hmembers _ _ _⟩
        · exact ⟨trivial, trivial⟩

theorem Document.ofText_fits (text : String) : (Document.ofText text).value.fits := by
  have hread := (read_fits (3 * text.toList.length + 3)).1 0 text.toList
  unfold Document.ofText
  dsimp only
  split
  · next d heq => rwa [heq] at hread
  · next d rest heq => rwa [heq] at hread

end Pseudocode
