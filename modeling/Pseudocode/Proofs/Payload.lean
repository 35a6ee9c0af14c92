import Pseudocode.Proofs.DumpStrings

/-! Texts made of the strings of a dump alone. Rendered names consist of such
strings, less their spaces or what stands before a point, and of a few marks. So
a character that is in neither is in no name. -/

namespace Pseudocode

theorem Binary64.isNumeralText_constantText (x : Binary64) : isNumeralText x.constantText := by
  unfold Binary64.constantText
  split
  · exact isNumeralText_int _
  · exact x.isNumeralText_plainText

section

variable {P : String → Prop} (hempty : P "") (happend : ∀ s t, P s → P t → P (s ++ t))
include hempty happend

theorem join_of_append {ts : List String} (h : ∀ t ∈ ts, P t) : P (String.join ts) := by
  induction ts with
  | nil => exact hempty
  | cons t ts ih =>
    have hrest := ih fun u hu => h u (List.mem_cons_of_mem _ hu)
    rw [String.join_cons]
    exact happend _ _ (h t List.mem_cons_self) hrest

theorem intercalate_of_append {separator : String} (hs : P separator) {ts : List String}
    (h : ∀ t ∈ ts, P t) : P (separator.intercalate ts) := by
  induction ts with
  | nil => simpa using hempty
  | cons t ts ih =>
    have hrest := ih fun u hu => h u (List.mem_cons_of_mem _ hu)
    cases ts with
    | nil => simpa using h t List.mem_cons_self
    | cons u ts =>
      rw [String.intercalate_cons_cons]
      exact happend _ _ (happend _ _ (h t List.mem_cons_self) hs) hrest

end

def nameMarks : List Char := "FAU.:UKN_OuterUNKNOWNthis->".toList

/-- Whether every character of a text is in one of some strings or is a mark. -/
def madeOf (ss : List String) (t : String) : Prop :=
  ∀ c ∈ t.toList, c ∈ nameMarks ∨ ∃ s ∈ ss, c ∈ s.toList

theorem madeOf.not_mem {ss : List String} {t : String} {c : Char} (h : madeOf ss t)
    (hmarks : c ∉ nameMarks) (hss : ∀ s ∈ ss, c ∉ s.toList) : c ∉ t.toList := by
  intro hc
  rcases h c hc with hmark | ⟨s, hs, hc⟩
  · exact hmarks hmark
  · exact hss s hs hc

theorem madeOf.mono {ss ss' : List String} {t : String} (h : madeOf ss t) (hsub : ss ⊆ ss') :
    madeOf ss' t :=
  fun c hc => (h c hc).imp_right fun ⟨s, hs, hcs⟩ => ⟨s, hsub hs, hcs⟩

theorem madeOf_of_mem {ss : List String} {t : String} (h : t ∈ ss) : madeOf ss t :=
  fun _ hc => .inr ⟨t, h, hc⟩

theorem madeOf_marks {ss : List String} {t : String} (h : t.toList ⊆ nameMarks) : madeOf ss t :=
  fun _ hc => .inl (h hc)

@[simp] theorem madeOf_empty (ss : List String) : madeOf ss "" := by simp [madeOf]

@[simp] theorem madeOf_append (ss : List String) (t u : String) :
    madeOf ss (t ++ u) ↔ madeOf ss t ∧ madeOf ss u := by
  simp [madeOf, or_imp, forall_and]

theorem madeOf_sublist {ss : List String} {t : String} {cs : List Char} (h : madeOf ss t)
    (hsub : cs ⊆ t.toList) : madeOf ss (String.ofList cs) := by
  intro c hc
  exact h c (hsub (by simpa using hc))

theorem madeOf_withoutSpaces {ss : List String} {t : String} (h : madeOf ss t) :
    madeOf ss (withoutSpaces t) :=
  madeOf_sublist h (List.filter_subset_self _)

theorem madeOf_afterLast {ss : List String} {t : String} (h : madeOf ss t) (mark : Char) :
    madeOf ss (String.ofList (afterLast mark t.toList)) :=
  madeOf_sublist h (List.rtakeWhile_suffix _ _).subset

theorem madeOf_intercalate {ss : List String} {separator : String} (hs : madeOf ss separator)
    {ts : List String} (h : ∀ t ∈ ts, madeOf ss t) : madeOf ss (separator.intercalate ts) :=
  intercalate_of_append (madeOf_empty ss) (fun t u ht hu =>
    (madeOf_append ss t u).mpr ⟨ht, hu⟩) hs h

theorem StructuralKind.madeOf_letter (ss : List String) (kind : StructuralKind) (hint : String) :
    madeOf ss (kind.letter hint) := by
  have hactor : madeOf ss "A" := madeOf_marks (by decide)
  have hother : madeOf ss "U" := madeOf_marks (by decide)
  cases kind
  case objectProperty =>
    simp only [StructuralKind.letter]
    split
    · exact hactor
    · exact hother
  all_goals exact madeOf_marks (by simp +decide [StructuralKind.letter])

namespace ObjectRef

theorem name_mem_strings (o : ObjectRef) : o.name ∈ o.strings := by
  obtain ⟨name, kind, class?, outer?⟩ := o
  simp [strings]

theorem madeOf_name (o : ObjectRef) : madeOf o.strings o.name := madeOf_of_mem o.name_mem_strings

theorem strings_class {o c : ObjectRef} (hc : o.class? = some c) : c.strings ⊆ o.strings := by
  obtain ⟨name, kind, class?, outer?⟩ := o
  intro s hs
  simp only at hc
  simp [strings, hc, referenceStrings, hs]

theorem strings_outer {o c : ObjectRef} (hc : o.outer? = some c) : c.strings ⊆ o.strings := by
  obtain ⟨name, kind, class?, outer?⟩ := o
  intro s hs
  simp only at hc
  simp [strings, hc, referenceStrings, hs]

theorem madeOf_path (o : ObjectRef) : madeOf o.strings o.path := by
  have hdot (ss : List String) : madeOf ss "." := madeOf_marks (by decide)
  induction o using ObjectRef.path.induct with
  | case1 name kind class? => exact madeOf_of_mem (by simp [path, strings])
  | case2 name kind class? outer ih =>
    have houter := ih.mono (strings_outer (o := ⟨name, kind, class?, some outer⟩) rfl)
    have hname := madeOf_name ⟨name, kind, class?, some outer⟩
    simp [path, houter, hdot, hname]

theorem madeOf_typeName (o : ObjectRef) : madeOf o.strings o.typeName := by
  simp [typeName, StructuralKind.madeOf_letter, madeOf_name]

theorem madeOf_functionText (o : ObjectRef) : madeOf o.strings o.functionText :=
  madeOf_withoutSpaces o.madeOf_name

theorem madeOf_ownerLetter (ss : List String) (o : ObjectRef) : madeOf ss o.ownerLetter := by
  unfold ownerLetter
  split <;> exact StructuralKind.madeOf_letter ss _ _

theorem madeOf_mathText (o : ObjectRef) : madeOf o.strings o.mathText := by
  have hcolons : madeOf o.strings "::" := madeOf_marks (by decide)
  simp only [mathText, madeOf_append, hcolons, madeOf_name, and_true]
  split
  · have houter := (madeOf_name _).mono (strings_outer ‹_›)
    simp [StructuralKind.madeOf_letter, madeOf_withoutSpaces houter]
  · exact madeOf_marks (by decide)

theorem findText_eq (o : ObjectRef) :
    ∃ class_ outer, madeOf o.strings class_ ∧ madeOf o.strings outer ∧
      o.findText = "FindObject<" ++ class_ ++ ">(" ++ inQuotes (outer ++ "." ++ o.name) ++ ")" := by
  have hunknown : madeOf o.strings "UNKNOWN" := madeOf_marks (by decide)
  have hclass (c : ObjectRef) (hc : o.class? = some c) :
      madeOf o.strings (c.kind.letter "" ++ String.ofList (afterLast '.' c.name.toList)) := by
    have hname := c.madeOf_name.mono (strings_class hc)
    simp [StructuralKind.madeOf_letter, madeOf_afterLast hname]
  have houter (outer : ObjectRef) (ho : o.outer? = some outer) : madeOf o.strings outer.path :=
    outer.madeOf_path.mono (strings_outer ho)
  cases hc : o.class? <;> cases ho : o.outer? <;> simp only [findText, hc, ho]
  · exact ⟨_, _, hunknown, hunknown, rfl⟩
  · exact ⟨_, _, hunknown, houter _ ho, rfl⟩
  · exact ⟨_, _, hclass _ hc, hunknown, rfl⟩
  · exact ⟨_, _, hclass _ hc, houter _ ho, rfl⟩

end ObjectRef

namespace PropertyPointer

theorem madeOf_text (p : PropertyPointer) : madeOf p.strings p.text := by
  have hdot : madeOf p.strings "." := madeOf_marks (by decide)
  unfold text
  cases hp : p.path? with
  | some segments =>
    refine madeOf_withoutSpaces (madeOf_intercalate hdot fun s hs => madeOf_of_mem ?_)
    exact List.mem_append_left _ (by simpa [hp] using hs)
  | none =>
    cases hl : p.legacyName? with
    | none => simp
    | some s => exact madeOf_of_mem (by simp [strings, hl])

theorem madeOf_variableText (p : PropertyPointer) (o : RenderOptions) :
    madeOf p.strings (p.variableText o) := by
  have hthis : madeOf p.strings "this->" := madeOf_marks (by decide)
  unfold variableText
  split
  · simp [hthis, madeOf_text]
  · exact p.madeOf_text

end PropertyPointer

end Pseudocode
