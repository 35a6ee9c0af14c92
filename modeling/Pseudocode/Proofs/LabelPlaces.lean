import Pseudocode.Proofs.LabelInsertion
import Pseudocode.Proofs.LayoutTexts
import Pseudocode.Proofs.TextLines

/-! Where labels stand in a text. A line that looks like a label has a capital L
behind blanks only; in rendered text a capital L belongs to a label, and one
that does not begin a label stands behind other characters on its line. -/

namespace Pseudocode

/-- A text without the letter that labels begin with. -/
def labelFree (s : String) : Prop := 'L' ∉ s.toList

instance (s : String) : Decidable (labelFree s) := inferInstanceAs (Decidable ('L' ∉ s.toList))

@[simp] theorem labelFree_append (s t : String) :
    labelFree (s ++ t) ↔ labelFree s ∧ labelFree t := by
  simp [labelFree]

theorem isNumeralText.labelFree {s : String} (h : isNumeralText s) : labelFree s :=
  h.lacks (by decide)

@[simp] theorem labelFree_nat (n : Nat) : labelFree n.repr := (isNumeralText_nat n).labelFree

def quiet (parts : List Part) : Prop := ∀ s, .text s ∈ parts → labelFree s

theorem Node.quiet_layout {node : Node Expr} (hjump : jumpOffset? node = none)
    (h : ∀ s ∈ node.strings, labelFree s) (o : RenderOptions) (mode : RenderMode) :
    quiet (node.layout o mode) :=
  node.lacks_layout (by decide) (fun _ => hjump) (fun _ => by decide) h o

/-- Wherever a line begins with the letter of labels, blanks aside, it goes on as
the label line of an offset other than `n`. -/
def labelsApart (n : UInt32) (t : List Char) : Prop :=
  ∀ before after, t = before ++ 'L' :: after → (∀ c ∈ afterLast '\n' before, isBlank c) →
    ∃ m ≠ n, ∃ rest, 'L' :: after = (labelName m).toList ++ ":\n".toList ++ rest

/-- Text that can be added without putting down the label of `n`. -/
def keepsApart (n : UInt32) (s : List Char) : Prop := ∀ t, labelsApart n t → labelsApart n (t ++ s)

theorem keepsApart_nil (n : UInt32) : keepsApart n [] := fun t ht => by simpa using ht

theorem keepsApart_append {n : UInt32} {s t : List Char} (hs : keepsApart n s)
    (ht : keepsApart n t) : keepsApart n (s ++ t) := by
  intro u hu
  have hsum := ht (u ++ s) (hs u hu)
  rwa [List.append_assoc] at hsum

theorem split_behind {c : Char} {s t before after : List Char} (hs : c ∉ s)
    (h : s ++ t = before ++ c :: after) : ∃ own, before = s ++ own ∧ t = own ++ c :: after := by
  rcases List.append_eq_append_iff.mp h with ⟨own, hb, ht⟩ | ⟨own, hown, hc⟩
  · exact ⟨own, hb, ht⟩
  · cases own with
    | nil => exact ⟨[], by simpa using hown.symm, by simpa using hc.symm⟩
    | cons d own =>
      obtain ⟨rfl, _⟩ := List.cons.inj hc
      exact absurd (by simp [hown]) hs

/-- Only the letters in the added text need to be looked at. -/
theorem keepsApart_intro {n : UInt32} {s : List Char}
    (h : ∀ t before after, s = before ++ 'L' :: after → (∀ c ∈ afterLast '\n' (t ++ before),
      isBlank c) → ∃ m ≠ n, ∃ rest, 'L' :: after = (labelName m).toList ++ ":\n".toList ++ rest) :
    keepsApart n s := by
  intro t ht before after heq hblank
  rcases List.append_eq_append_iff.mp heq with ⟨own, rfl, hown⟩ | ⟨own, hown, hL⟩
  · exact h t own after hown hblank
  · cases own with
    | nil => exact h t [] after (by simpa using hL.symm) (by simpa [hown] using hblank)
    | cons d own =>
      obtain ⟨rfl, rfl⟩ := List.cons.inj hL
      obtain ⟨m, hm, rest, hrest⟩ := ht before own hown hblank
      exact ⟨m, hm, rest ++ s, by rw [← List.append_assoc, ← hrest]; rfl⟩

theorem keepsApart_of_labelFree {n : UInt32} {s : String} (h : labelFree s) :
    keepsApart n s.toList := by
  refine keepsApart_intro fun t before after heq _ => ?_
  exact absurd (by simp [heq]) h

theorem newline_not_mem_labelName (m : UInt32) : '\n' ∉ (labelName m).toList := by
  have hdigits : '\n' ∉ (toString m.toNat).toList := by
    intro h
    have hdigit := isDigit_of_mem_toString h
    revert hdigit
    decide
  simpa [labelName] using hdigits

/-- A label behind something that shows does not begin its line. -/
theorem keepsApart_goto (n m : UInt32) {s : String} (hs : labelFree s) (hline : '\n' ∉ s.toList)
    (hshows : ∃ c ∈ s.toList, isBlank c = false) : keepsApart n (s ++ labelName m).toList := by
  refine keepsApart_intro fun t before after heq hblank => ?_
  obtain ⟨own, rfl, hown⟩ := split_behind hs (by simpa using heq)
  obtain ⟨c, hc, hshown⟩ := hshows
  have hnot : '\n' ∉ s.toList ++ own := by
    have hname := newline_not_mem_labelName m
    rw [hown] at hname
    simp_all
  have hc' := hblank c (by rw [afterLast_append hnot]; simp [hc])
  simp [hshown] at hc'

theorem keepsApart_labelLine {n m : UInt32} (h : m ≠ n) (mode : RenderMode) :
    keepsApart n (labelLine m mode).toList := by
  have hline : keepsApart n (labelName m ++ ":\n").toList := by
    refine keepsApart_intro fun t before after heq _ => ?_
    cases before with
    | nil => exact ⟨m, h, [], by simpa using heq.symm⟩
    | cons d before =>
      have hfree : labelFree ("abel_" ++ toString m.toNat ++ ":\n") := by simp +decide
      have hname :
          (labelName m ++ ":\n").toList = 'L' :: ("abel_" ++ toString m.toNat ++ ":\n").toList := by
        simp [labelName]
      rw [hname] at heq
      have hL : 'L' ∈ ("abel_" ++ toString m.toNat ++ ":\n").toList := by
        rw [(List.cons.inj heq).2]; simp
      exact absurd hL hfree
  cases mode with
  | statement =>
    have hindent : keepsApart n indentation.toList := keepsApart_of_labelFree (by decide)
    simpa [labelLine] using keepsApart_append hindent hline
  | expression => exact hline

theorem toDigits_injective {k l : Nat} (h : Nat.toDigits 10 k = Nat.toDigits 10 l) : k = l := by
  rw [← Nat.ofDigitChars_ten_toDigits (n := k), h, Nat.ofDigitChars_ten_toDigits]

theorem labelName_cancel {n m : UInt32} {u v : List Char}
    (h : (labelName n).toList ++ ':' :: u = (labelName m).toList ++ ':' :: v) : n = m := by
  have hdigits : Nat.toDigits 10 n.toNat ++ ':' :: u = Nat.toDigits 10 m.toNat ++ ':' :: v := by
    simpa [labelName] using h
  have hspan (k : Nat) (w : List Char) :
      (Nat.toDigits 10 k ++ ':' :: w).takeWhile Char.isDigit = Nat.toDigits 10 k := by
    rw [List.takeWhile_append_of_pos fun c hc =>
      Nat.isDigit_of_mem_toDigits (by decide) (by decide) hc]
    simp
  have heq := congrArg (List.takeWhile Char.isDigit) hdigits
  rw [hspan, hspan] at heq
  exact UInt32.toNat_inj.mp (toDigits_injective heq)

theorem labelsApart.not_label_line {n : UInt32} {t : List Char} (ht : labelsApart n t)
    {l : List Char} (hl : l ∈ textLines t) : trimBlanks l ≠ (labelName n ++ ":").toList := by
  intro hlabel
  obtain ⟨before, after, rfl, hbefore, hline⟩ := mem_textLines hl
  obtain ⟨blanks, trailing, hsplit, hblanks⟩ := trimBlanks_split l
  have hname :
      (labelName n ++ ":").toList = 'L' :: ("abel_" ++ toString n.toNat ++ ":").toList := by
    simp [labelName]
  rw [hlabel, hname] at hsplit
  have hopen : afterLast '\n' (before ++ blanks) = blanks := by
    have hnot : '\n' ∉ blanks := fun h => hline (by simp [hsplit, h])
    rw [afterLast_append hnot, afterLast_of_wholeLines hbefore, List.nil_append]
  obtain ⟨m, hm, rest, hrest⟩ :=
    ht (before ++ blanks) (("abel_" ++ toString n.toNat ++ ":").toList ++ trailing ++ after)
      (by simp [hsplit]) (by rwa [hopen])
  refine hm (labelName_cancel (u := '\n' :: rest) (v := trailing ++ after) ?_)
  have hsame : (labelName m).toList ++ ":\n".toList ++ rest =
      (labelName n ++ ":").toList ++ (trailing ++ after) := by
    rw [← hrest, hname]
    simp
  simpa using hsame

end Pseudocode
