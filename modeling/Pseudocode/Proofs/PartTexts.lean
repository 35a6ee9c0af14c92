import Pseudocode.Proofs.Payload

/-! Characters that are not in a text, and what holds of all texts among the
parts of a layout. -/

namespace Pseudocode

/-- The characters that any node may write: those that show, but for the letter
that labels begin with. -/
def isCommon (c : Char) : Bool := ' ' ≤ c && c ≤ '~' && c != 'L'

def lacks (c : Char) (s : String) : Prop := c ∉ s.toList

@[simp] theorem lacks_append (c : Char) (s t : String) :
    lacks c (s ++ t) ↔ lacks c s ∧ lacks c t := by
  simp [lacks]

@[simp] theorem lacks_empty (c : Char) : lacks c "" := by simp [lacks]

theorem isCommon_of_isDigit {c : Char} (h : c.isDigit = true) : isCommon c = true := by
  simp only [Char.isDigit, Bool.and_eq_true, decide_eq_true_eq, ge_iff_le] at h
  obtain ⟨hlow, hhigh⟩ := h
  have hne : c ≠ 'L' := by
    rintro rfl
    revert hhigh
    decide
  simp only [isCommon, Char.le_def, Bool.and_eq_true, decide_eq_true_eq, bne_iff_ne]
  exact ⟨⟨UInt32.le_trans (by decide) hlow, UInt32.le_trans hhigh (by decide)⟩, hne⟩

theorem lacks_intercalate {c : Char} {separator : String} (hs : lacks c separator)
    {ss : List String} (h : ∀ s ∈ ss, lacks c s) : lacks c (separator.intercalate ss) :=
  intercalate_of_append (lacks_empty c) (fun s t hs ht => (lacks_append c s t).mpr ⟨hs, ht⟩) hs h

section

variable {c : Char} (hc : isCommon c = false)
include hc

theorem not_mem_common {cs : List Char} (h : cs.all isCommon = true) : c ∉ cs := by
  intro hmem
  have hcommon := List.all_eq_true.mp h c hmem
  rw [hc] at hcommon
  cases hcommon

theorem lacks_common {s : String} (h : s.toList.all isCommon = true) : lacks c s :=
  not_mem_common hc h

theorem lacks_ruled (hlines : c ≠ '\t' ∧ c ≠ '\n') {s : String}
    (h : (s.toList.filter fun d => d != '\t' && d != '\n').all isCommon = true) : lacks c s :=
  fun hs => not_mem_common hc h (List.mem_filter.mpr ⟨hs, by simpa using hlines⟩)

theorem isNumeralText.lacks {s : String} (h : isNumeralText s) : lacks c s := by
  intro hs
  rcases h c hs with hdigit | hmark
  · rw [isCommon_of_isDigit hdigit] at hc
    cases hc
  · exact not_mem_common hc (by decide) hmark

theorem madeOf.lacks {ss : List String} {t : String} (h : madeOf ss t) (hss : ∀ s ∈ ss, lacks c s) :
    lacks c t :=
  h.not_mem (not_mem_common hc (by decide)) hss

theorem lacks_inQuotes {s : String} (h : lacks c s) : lacks c (inQuotes s) := by
  have hquote : lacks c "\"" := lacks_common hc (by decide)
  simp [inQuotes, hquote, h]

theorem lacks_hexDigits (value : UInt8) : lacks c (String.ofList (hexDigits 'A' value.toNat)) :=
  fun hs =>
  not_mem_common hc (by decide) (mem_hexDigits_byte value c (by simpa using hs))

theorem lacks_labelName (hL : c ≠ 'L') (n : UInt32) : lacks c (labelName n) := by
  have hletter : lacks c "L" := by simpa [lacks] using hL
  have hprefix : lacks c "abel_" := lacks_common hc (by decide)
  have hnumber : lacks c (toString n.toNat) := (isNumeralText_nat _).lacks hc
  have hsplit : "Label_" = "L" ++ "abel_" := rfl
  rw [labelName, hsplit]
  simp only [lacks_append]
  exact ⟨⟨hletter, hprefix⟩, hnumber⟩

theorem lacks_constructorText {name : String} (hn : name.toList.all isCommon = true)
    {arguments : List String} (h : ∀ s ∈ arguments, lacks c s) :
    lacks c (constructorText name arguments) := by
  have hcomma : lacks c ", " := lacks_common hc (by decide)
  simp (disch := decide) [constructorText, lacks_common hc, lacks_common hc hn,
    lacks_intercalate hcomma h]

theorem ObjectRef.lacks_findText {o : ObjectRef} (h : ∀ s ∈ o.strings, lacks c s) :
    lacks c o.findText := by
  obtain ⟨class_, outer, hclass, houter, htext⟩ := o.findText_eq
  have hpath : lacks c (outer ++ "." ++ o.name) := by
    simp (disch := decide) [lacks_common hc, houter.lacks hc h, o.madeOf_name.lacks hc h]
  simp (disch := decide) [htext, lacks_common hc, hclass.lacks hc h, lacks_inQuotes hc hpath]

theorem Vector.lacks_text (v : Vector) : lacks c v.text :=
  lacks_constructorText hc (by decide) (by simp [isNumeralText.lacks hc])

theorem Rotator.lacks_text (r : Rotator) : lacks c r.text :=
  lacks_constructorText hc (by decide) (by simp [isNumeralText.lacks hc])

theorem Quat.lacks_text (q : Quat) : lacks c q.text :=
  lacks_constructorText hc (by decide) (by simp [isNumeralText.lacks hc])

theorem Transform.lacks_text (t : Transform) : lacks c t.text :=
  lacks_constructorText hc (by decide) (by simp [Quat.lacks_text hc, Vector.lacks_text hc])

end

def allTexts (P : String → Prop) (parts : List Part) : Prop := ∀ s, .text s ∈ parts → P s

section allTexts

variable {P : String → Prop}

@[simp] theorem allTexts_nil : allTexts P [] := by simp [allTexts]

@[simp] theorem allTexts_append (ps qs : List Part) :
    allTexts P (ps ++ qs) ↔ allTexts P ps ∧ allTexts P qs := by
  simp [allTexts, or_imp, forall_and]

@[simp] theorem allTexts_text (s : String) (ps : List Part) :
    allTexts P (.text s :: ps) ↔ P s ∧ allTexts P ps := by
  simp [allTexts]

@[simp] theorem allTexts_margin (ps : List Part) : allTexts P (.margin :: ps) ↔ allTexts P ps := by
  simp [allTexts]

@[simp] theorem allTexts_operand (m : RenderMode) (e : Expr) (ps : List Part) :
    allTexts P (.operand m e :: ps) ↔ allTexts P ps := by
  simp [allTexts]

@[simp] theorem allTexts_ite (b : Prop) [Decidable b] (ps qs : List Part) :
    allTexts P (if b then ps else qs) ↔ (b → allTexts P ps) ∧ (¬ b → allTexts P qs) := by
  split <;> simp_all

@[simp] theorem allTexts_inStatement (mode : RenderMode) (ps : List Part) :
    allTexts P (mode.inStatement ps) ↔ (mode = .statement → allTexts P ps) := by
  cases mode <;> simp [RenderMode.inStatement]

@[simp] theorem allTexts_wrap (mode : RenderMode) (ps : List Part) :
    allTexts P (mode.wrap ps) ↔ allTexts P ps ∧
      (mode = .statement → P indentation ∧ P terminator) := by
  cases mode
  · simp [RenderMode.wrap, RenderMode.inStatement, and_left_comm]
  · simp [RenderMode.wrap, RenderMode.inStatement]

theorem allTexts.mono {Q : String → Prop} {ps : List Part} (h : allTexts P ps)
    (hpq : ∀ s, P s → Q s) : allTexts Q ps :=
  fun s hs => hpq s (h s hs)

theorem allTexts_flatMap {α : Type} {f : α → List Part} {xs : List α} :
    allTexts P (xs.flatMap f) ↔ ∀ x ∈ xs, allTexts P (f x) := by
  simp only [allTexts, List.mem_flatMap]
  exact ⟨fun h x hx s hs => h s ⟨x, hx, hs⟩, fun h s ⟨x, hx, hs⟩ => h x hx s hs⟩

theorem allTexts_argumentParts (hbreak : P "\n\t\t\t") (hcomma : P ", ") (lines : Bool)
    (es : List Expr) : allTexts P (argumentParts lines es) := by
  induction es with
  | nil => exact allTexts_nil
  | cons e es ih =>
    simp only [argumentParts, allTexts_append, allTexts_ite, allTexts_text, allTexts_operand,
      allTexts_nil, hbreak, hcomma, ih, and_self, implies_true]

theorem allTexts_elementParts (hspace : P " ") (hcomma : P ",") (es : List Expr) :
    allTexts P (elementParts es) := by
  induction es with
  | nil => exact allTexts_nil
  | cons e es ih => simp [elementParts, hspace, hcomma, ih]

theorem allTexts_pairParts (hspace : P " ") (hcolon : P ": ") (hcomma : P ",") (es : List Expr) :
    allTexts P (pairParts es) := by
  induction es using pairParts.induct with
  | case1 => exact allTexts_nil
  | case2 key => simp [pairParts, hspace]
  | case3 key value rest ih => simp [pairParts, hspace, hcolon, hcomma, ih]

theorem allTexts_fieldParts (hcomma : P ", ") (es : List Expr) : allTexts P (fieldParts es) := by
  induction es with
  | nil => exact allTexts_nil
  | cons e es ih => simp [fieldParts, hcomma, ih]

theorem allTexts_intersperse {separator : String} (h : P separator) (es : List Expr) :
    allTexts P ((es.map Part.inside).intersperse (.text separator)) := by
  induction es with
  | nil => exact allTexts_nil
  | cons e es ih =>
    cases es with
    | nil => simp
    | cons e' es =>
      have hcons : allTexts P (.inside e :: .text separator ::
          ((e' :: es).map Part.inside).intersperse (.text separator)) := by simpa [h] using ih
      exact hcons

theorem allTexts_caseParts (hcase : P "\t\t\tcase ") (hcolon : P ":\n")
    (hvalue : ∀ i : Int, P ("\t\t\tcase " ++ toString i ++ ":\n"))
    (hbegin : P "\t\t\t\x7b\n\t\t\t    ") (hend : P ";\n\t\t\t    break;\n\t\t\t\x7d\n")
    (k : SwitchCase Expr) : allTexts P (caseParts k) := by
  cases h : k.key.node.int? with
  | none =>
    simp only [caseParts, h, List.cons_append, List.nil_append, allTexts_text, allTexts_operand,
      allTexts_nil, hcase, hcolon, hbegin, hend, and_self]
  | some value =>
    simp only [caseParts, h, List.cons_append, List.nil_append, allTexts_text, allTexts_operand,
      allTexts_nil, hvalue, hbegin, hend, and_self]

end allTexts

end Pseudocode
