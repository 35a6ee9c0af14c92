import Mathlib.Data.List.DropRight
import Pseudocode.Text.Blank
import Pseudocode.Text.Search

/-! Lines of a text, and lines that are blank around a word. A text of whole lines
splits into them whatever follows it. -/

namespace Pseudocode

/-- Whether a text stops where a line does. -/
def wholeLines (s : List Char) : Prop := ∀ c ∈ s.getLast?, c = '\n'

theorem wholeLines_nil : wholeLines [] := by simp [wholeLines]

theorem eq_nil_of_wholeLines {l : List Char} (h : wholeLines l) (hl : '\n' ∉ l) : l = [] := by
  by_contra hne
  have hlast := h (l.getLast hne) (by simp [List.getLast?_eq_some_getLast hne])
  exact hl (hlast ▸ List.getLast_mem hne)

theorem wholeLines_line_append (l : List Char) {s : List Char} :
    wholeLines (l ++ '\n' :: s) ↔ wholeLines s := by
  cases s with
  | nil => simp [wholeLines]
  | cons c s => simp [wholeLines, List.getLast?_append, List.getLast?_cons_cons]

theorem wholeLines_append {s t : List Char} (hs : wholeLines s) (ht : wholeLines t) :
    wholeLines (s ++ t) := by
  intro c hc
  cases hl : t.getLast? with
  | none =>
    obtain rfl := List.getLast?_eq_none_iff.mp hl
    exact hs c (by simpa using hc)
  | some d =>
    have hcd : c = d := by simpa [List.getLast?_append, hl] using hc.symm
    exact hcd ▸ ht d hl

/-- Every text is some lines and a rest without line feeds. -/
theorem line_induction {P : List Char → Prop} (rest : ∀ l, '\n' ∉ l → P l)
    (line : ∀ l s, '\n' ∉ l → P s → P (l ++ '\n' :: s)) (s : List Char) : P s := by
  by_cases h : '\n' ∈ s
  · obtain ⟨l, s', hs, hl⟩ := List.eq_append_cons_of_mem h
    have hlt : s'.length < s.length := by simp [hs]; omega
    exact hs ▸ line l s' hl (line_induction rest line s')
  · exact rest s h
termination_by s.length

theorem textLines_of_not_mem {l : List Char} (hl : '\n' ∉ l) (hne : l ≠ []) :
    textLines l = [l] := by
  induction l with
  | nil => exact absurd rfl hne
  | cons c l ih =>
    simp only [List.mem_cons, not_or] at hl
    cases l with
    | nil => simp [textLines, Ne.symm hl.1]
    | cons d l =>
      have hrest := ih hl.2 (by simp)
      rw [textLines, if_neg (Ne.symm hl.1), hrest]

theorem textLines_line {l : List Char} (hl : '\n' ∉ l) (s : List Char) :
    textLines (l ++ '\n' :: s) = l :: textLines s := by
  induction l with
  | nil => simp [textLines]
  | cons c l ih =>
    simp only [List.mem_cons, not_or] at hl
    rw [List.cons_append, textLines, if_neg (Ne.symm hl.1), ih hl.2]

theorem textLines_append {s : List Char} (h : wholeLines s) (t : List Char) :
    textLines (s ++ t) = textLines s ++ textLines t := by
  induction s using line_induction with
  | rest l hl => simp [eq_nil_of_wholeLines h hl, textLines]
  | line l s hl ih =>
    have hs := ih ((wholeLines_line_append l).mp h)
    rw [List.append_assoc, List.cons_append, textLines_line hl, textLines_line hl, hs,
      List.cons_append]

theorem length_textLines {s : List Char} (h : wholeLines s) :
    (textLines s).length = s.count '\n' := by
  induction s using line_induction with
  | rest l hl => simp [eq_nil_of_wholeLines h hl, textLines]
  | line l s hl ih =>
    have hs := ih ((wholeLines_line_append l).mp h)
    simp [textLines_line hl, hs, List.count_eq_zero.mpr hl]

theorem mem_textLines {s l : List Char} (h : l ∈ textLines s) :
    ∃ before after, s = before ++ l ++ after ∧ wholeLines before ∧ '\n' ∉ l := by
  induction s using line_induction with
  | rest r hr =>
    by_cases hne : r = []
    · simp [hne, textLines] at h
    · obtain rfl : l = r := by simpa [textLines_of_not_mem hr hne] using h
      exact ⟨[], [], by simp, wholeLines_nil, hr⟩
  | line r s hr ih =>
    rw [textLines_line hr] at h
    rcases List.mem_cons.mp h with rfl | h
    · exact ⟨[], '\n' :: s, by simp, wholeLines_nil, hr⟩
    · obtain ⟨before, after, rfl, hb, hl⟩ := ih h
      exact ⟨r ++ '\n' :: before, after, by simp, (wholeLines_line_append r).mpr hb, hl⟩

theorem afterLast_append {mark : Char} {t : List Char} (h : mark ∉ t) (s : List Char) :
    afterLast mark (s ++ t) = afterLast mark s ++ t := by
  have ht : ∀ c ∈ t.reverse, decide (c ≠ mark) = true := by
    intro c hc
    exact decide_eq_true fun he => h (he ▸ List.mem_reverse.mp hc)
  simp only [afterLast, List.reverse_append, List.takeWhile_append_of_pos ht, List.reverse_reverse]

theorem afterLast_of_wholeLines {s : List Char} (h : wholeLines s) : afterLast '\n' s = [] := by
  have hnil : s.rtakeWhile (· ≠ '\n') = [] := by
    rw [List.rtakeWhile_eq_nil_iff]
    intro hne
    simpa using h (s.getLast hne) (by simp [List.getLast?_eq_some_getLast hne])
  exact hnil

theorem trimBlanks_split (l : List Char) :
    ∃ before after, l = before ++ trimBlanks l ++ after ∧ ∀ c ∈ before, isBlank c := by
  refine ⟨l.takeWhile isBlank, (l.dropWhile isBlank).rtakeWhile isBlank, ?_, fun c =>
    List.mem_takeWhile_imp⟩
  have hinner : trimBlanks l ++ (l.dropWhile isBlank).rtakeWhile isBlank = l.dropWhile isBlank :=
    List.rdropWhile_append_rtakeWhile
  rw [List.append_assoc, hinner, List.takeWhile_append_dropWhile]

theorem trimBlanks_of_blanks {before : List Char} (hb : ∀ c ∈ before, isBlank c) (first : Char)
    (middle : List Char) (last : Char) (hf : isBlank first = false) (hl : isBlank last = false) :
    trimBlanks (before ++ first :: middle ++ [last]) = first :: middle ++ [last] := by
  have hdrop :
      (before ++ first :: middle ++ [last]).dropWhile isBlank = first :: middle ++ [last] := by
    simp [List.dropWhile_append_of_pos hb, hf]
  have hkeep : ((first :: middle) ++ [last]).rdropWhile isBlank = first :: middle ++ [last] :=
    List.rdropWhile_concat_neg isBlank (first :: middle) last (by simp [hl])
  rw [trimBlanks, hdrop]
  exact hkeep

end Pseudocode
