import Pseudocode.Proofs.Brackets
import Pseudocode.Render.TypeName

/-! The brackets of values and of type names are properly nested, if the strings
in them have none. A struct within a bag is written in a form of its own, so both
forms are looked at together. -/

namespace Pseudocode

theorem isNumeralText.nested {s : String} (h : isNumeralText s) : Nested (bracketsOf s) := by
  rw [h.brackets_nil]
  exact .nil

theorem nested_numerals {name : String} (hn : bracketsOf name = []) {arguments : List String}
    (h : ∀ s ∈ arguments, isNumeralText s) : Nested (bracketsOf (constructorText name arguments)) :=
  nested_constructorText hn fun s hs => (h s hs).nested

theorem Vector.nested_text (v : Vector) : Nested (bracketsOf v.text) :=
  nested_numerals (by decide) (by simp)

theorem Vector2D.nested_text (v : Vector2D) : Nested (bracketsOf v.text) :=
  nested_numerals (by decide) (by simp)

theorem Rotator.nested_text (r : Rotator) : Nested (bracketsOf r.text) :=
  nested_numerals (by decide) (by simp)

theorem Quat.nested_text (q : Quat) : Nested (bracketsOf q.text) :=
  nested_numerals (by decide) (by simp)

theorem Transform.nested_text (t : Transform) : Nested (bracketsOf t.text) :=
  nested_constructorText (by decide) (by simp [Quat.nested_text, Vector.nested_text])

theorem bracketFree.nested {s : String} (h : bracketFree s) : Nested (bracketsOf s) := by
  rw [h.brackets_nil]
  exact .nil

theorem nested_inQuotes {s : String} (h : Nested (bracketsOf s)) :
    Nested (bracketsOf (inQuotes s)) := by
  rwa [bracketsOf_inQuotes]

theorem nested_tagContainerText {tags : List String} (h : ∀ s ∈ tags, bracketFree s) :
    Nested (bracketsOf (tagContainerText tags)) := by
  match tags with
  | [] => decide
  | [tag] => exact nested_inQuotes (h tag List.mem_cons_self).nested
  | tag :: tag' :: tags =>
    have hlines : ∀ s ∈ (tag :: tag' :: tags).map (fun tag => "\t\t" ++ inQuotes tag),
        Nested (bracketsOf s) := by
      intro s hs
      obtain ⟨t, ht, rfl⟩ := List.mem_map.mp hs
      have hindent : bracketsOf "\t\t" = [] := by decide
      simpa [hindent] using nested_inQuotes (h t ht).nested
    exact nested_enclosed (o := '[') (c := ']') rfl (by decide) (by decide)
      (nested_intercalate (by decide) hlines)

theorem nested_colon {s t : String} (hs : Nested (bracketsOf s)) (ht : Nested (bracketsOf t)) :
    Nested (bracketsOf (s ++ ": " ++ t)) := by
  have hcolon : bracketsOf ": " = [] := by decide
  simpa [hcolon] using hs.append ht

theorem displayItems_eq (items : List PropertyValue) :
    displayItems items = items.map PropertyValue.displayText := by
  induction items with
  | nil => rfl
  | cons v items ih => rw [displayItems, ih, List.map_cons]

theorem displayEntries_eq (entries : List (PropertyValue × PropertyValue)) :
    displayEntries entries = entries.map fun e => e.1.displayText ++ ": " ++ e.2.displayText := by
  induction entries with
  | nil => rfl
  | cons e entries ih => rw [displayEntries, ih, List.map_cons]

theorem bagLines_eq (tags : List PropertyTag) :
    bagLines tags = tags.map fun t =>
      "\t\t\x7b " ++ (inQuotes t.name ++ ": " ++ bagField t.value) ++ " \x7d" := by
  induction tags with
  | nil => rfl
  | cons t tags ih =>
    obtain ⟨name, value⟩ := t
    simp [bagLines, ih, String.append_assoc]

theorem nestedFields_eq (tags : List PropertyTag) :
    nestedFields tags = tags.map fun t => inQuotes t.name ++ ": " ++ nestedField t.value := by
  induction tags with
  | nil => rfl
  | cons t tags ih =>
    obtain ⟨name, value⟩ := t
    simp [nestedFields, ih]

theorem bagField_of_ne {value : PropertyValue} (h : ∀ tags, value ≠ .struct (.bag tags)) :
    bagField (some value) = inQuotes value.displayText := by
  rw [bagField]
  · exact h []
  · exact fun tag tags => h (tag :: tags)

theorem forall_tag (P : Option PropertyValue → Prop) {tags : List PropertyTag} (hnone : P none)
    (hsome : ∀ w ∈ PropertyValue.parts (.struct (.bag tags)), P (some w)) (t : PropertyTag)
    (ht : t ∈ tags) : P t.value := by
  cases hv : t.value with
  | none => exact hnone
  | some w => exact hsome w (List.mem_filterMap.mpr ⟨t, ht, hv⟩)

theorem tag_name_free {tags : List PropertyTag} (h : ∀ s ∈ tagsStrings tags, bracketFree s)
    (t : PropertyTag) (ht : t ∈ tags) : bracketFree t.name :=
  h t.name (by simpa [tagsStrings_eq] using ⟨t, ht, by simp⟩)

theorem nested_bagLines {tags : List PropertyTag} (h : ∀ s ∈ tagsStrings tags, bracketFree s)
    (hfields : ∀ t ∈ tags, Nested (bracketsOf (bagField t.value))) :
    ∀ line ∈ bagLines tags, Nested (bracketsOf line) := by
  rw [bagLines_eq, List.forall_mem_map]
  intro t ht
  have hname := nested_inQuotes (tag_name_free h t ht).nested
  exact nested_enclosed (o := '\x7b') (c := '\x7d') rfl (by decide) (by decide)
    (nested_colon hname (hfields t ht))

theorem nested_nestedFields {tags : List PropertyTag} (h : ∀ s ∈ tagsStrings tags, bracketFree s)
    (hfields : ∀ t ∈ tags, Nested (bracketsOf (nestedField t.value))) :
    ∀ field ∈ nestedFields tags, Nested (bracketsOf field) := by
  rw [nestedFields_eq, List.forall_mem_map]
  intro t ht
  exact nested_colon (nested_inQuotes (tag_name_free h t ht).nested) (hfields t ht)

theorem StructValue.nested_text {value : StructValue} (h : ∀ s ∈ value.strings, bracketFree s)
    (hbag : ∀ tags, value = .bag tags → ∀ t ∈ tags, Nested (bracketsOf (bagField t.value))) :
    Nested (bracketsOf value.text) := by
  cases value
  case vector v => exact v.nested_text
  case vector2D v => exact v.nested_text
  case rotator r => exact r.nested_text
  case quat q => exact q.nested_text
  case softObjectPath path =>
    exact nested_constructorText (by decide)
      (by simpa using (h path (by simp [StructValue.strings])).nested)
  case uniqueNetId id =>
    cases id with
    | none => decide
    | some id =>
      exact nested_constructorText (by decide)
        (by simpa using (h id (by simp [StructValue.strings])).nested)
  case box min max => exact nested_constructorText (by decide) (by simp [Vector.nested_text])
  case box2D min max => exact nested_constructorText (by decide) (by simp [Vector2D.nested_text])
  case bag tags =>
    cases tags with
    | nil => decide
    | cons tag tags =>
      rw [StructValue.text]
      exact nested_enclosed (o := '[') (c := ']') rfl (by decide) (by decide)
        (nested_intercalate (by decide) (nested_bagLines h (hbag _ rfl)))
  case tagContainer tags => exact nested_tagContainerText h
  case raw text =>
    cases text with
    | none => decide
    | some text => exact (h text (by simp [StructValue.strings])).nested
  all_goals exact nested_numerals (by decide) (by simp)

/-- The plain form of a value is nested, and so is its form in a bag. -/
theorem PropertyValue.nested_text (v : PropertyValue) (h : ∀ s ∈ v.strings, bracketFree s) :
    Nested (bracketsOf v.displayText) ∧ Nested (bracketsOf (bagField (some v))) := by
  induction v using PropertyValue.induction with
  | h v ih =>
    have hparts (w : PropertyValue) (hw : w ∈ v.parts) :=
      ih w hw fun s hs => h s (strings_part hw hs)
    have quoted (hne : ∀ tags, v ≠ .struct (.bag tags))
        (hplain : Nested (bracketsOf v.displayText)) :
        Nested (bracketsOf v.displayText) ∧ Nested (bracketsOf (bagField (some v))) :=
      ⟨hplain, bagField_of_ne hne ▸ nested_inQuotes hplain⟩
    cases v
    case bool value => exact quoted (by simp) (by cases value <;> decide)
    case int value => exact quoted (by simp) (isNumeralText_int value.toInt).nested
    case uint value => exact quoted (by simp) (isNumeralText_nat value.toNat).nested
    case float value => exact quoted (by simp) value.isNumeralText_plainText.nested
    case text sort value => exact quoted (by simp) (h value (by simp [strings])).nested
    case object path =>
      refine quoted (by simp) ?_
      cases path with
      | none => decide
      | some path => exact (h path (by simp [strings])).nested
    case array items =>
      refine quoted (by simp) ?_
      rw [displayText, displayItems_eq]
      have hitems : ∀ t ∈ items.map displayText, Nested (bracketsOf t) :=
        List.forall_mem_map.mpr fun w hw => (hparts w hw).1
      exact nested_enclosed (o := '[') (c := ']') rfl (by decide) (by decide)
        (nested_intercalate (by decide) hitems)
    case map entries =>
      refine quoted (by simp) ?_
      rw [displayText, displayEntries_eq]
      have hentries : ∀ t ∈ entries.map fun e => e.1.displayText ++ ": " ++ e.2.displayText,
          Nested (bracketsOf t) := by
        refine List.forall_mem_map.mpr fun e he => ?_
        have hpart (w : PropertyValue) (hw : w ∈ [e.1, e.2]) :=
          (hparts w (List.mem_flatMap.mpr ⟨e, he, hw⟩)).1
        exact nested_colon (hpart e.1 (by simp)) (hpart e.2 (by simp))
      exact nested_enclosed (o := '\x7b') (c := '\x7d') rfl (by decide) (by decide)
        (nested_intercalate (by decide) hentries)
    case struct value =>
      have hplain : Nested (bracketsOf value.text) := by
        refine StructValue.nested_text h fun tags htags =>
          forall_tag (fun value => Nested (bracketsOf (bagField value))) (by decide) fun w hw => ?_
        exact (hparts w (htags ▸ hw)).2
      cases value
      case bag tags =>
        refine ⟨hplain, ?_⟩
        cases tags with
        | nil => decide
        | cons tag tags =>
          have hfields : ∀ t ∈ tag :: tags, Nested (bracketsOf (nestedField t.value)) :=
            forall_tag (fun value => Nested (bracketsOf (nestedField value)))
                (by decide) fun w hw =>
              nested_inQuotes (hparts w hw).1
          rw [bagField]
          exact nested_enclosed (o := '\x7b') (c := '\x7d') rfl (by decide) (by decide)
            (nested_intercalate (by decide) (nested_nestedFields h hfields))
      all_goals exact quoted (by simp) hplain

theorem literalItems_eq (items : List PropertyValue) :
    literalItems items = items.map PropertyValue.literal := by
  induction items with
  | nil => rfl
  | cons v items ih => rw [literalItems, ih, List.map_cons]

theorem literalEntries_eq (entries : List (PropertyValue × PropertyValue)) :
    literalEntries entries = entries.map fun e => e.1.literal ++ ": " ++ e.2.literal := by
  induction entries with
  | nil => rfl
  | cons e entries ih => rw [literalEntries, ih, List.map_cons]

theorem PropertyValue.nested_literal (v : PropertyValue) (h : ∀ s ∈ v.strings, bracketFree s) :
    Nested (bracketsOf v.literal) := by
  induction v using PropertyValue.induction with
  | h v ih =>
    have hparts (w : PropertyValue) (hw : w ∈ v.parts) :=
      ih w hw fun s hs => h s (strings_part hw hs)
    cases v
    case text sort value =>
      have hvalue := (h value (by simp [strings])).nested
      cases sort
      case enumeration => exact hvalue
      all_goals exact nested_inQuotes hvalue
    case object path =>
      cases path with
      | none => decide
      | some path =>
        have hpath := (h path (by simp [strings])).nested
        exact nested_constructorText (by decide) (by simpa using nested_inQuotes hpath)
    case array items =>
      cases items with
      | nil => decide
      | cons item items =>
        rw [literal, literalItems_eq]
        have hitems : ∀ t ∈ (item :: items).map literal, Nested (bracketsOf t) :=
          List.forall_mem_map.mpr hparts
        exact nested_enclosed (o := '\x7b') (c := '\x7d') rfl (by decide) (by decide)
          (nested_intercalate (by decide) hitems)
    case map entries =>
      cases entries with
      | nil => decide
      | cons entry entries =>
        rw [literal, literalEntries_eq]
        have hentries : ∀ t ∈ (entry :: entries).map fun e => e.1.literal ++ ": " ++ e.2.literal,
            Nested (bracketsOf t) := by
          refine List.forall_mem_map.mpr fun e he => ?_
          have hpart (w : PropertyValue) (hw : w ∈ [e.1, e.2]) :=
            hparts w (List.mem_flatMap.mpr ⟨e, he, hw⟩)
          exact nested_colon (hpart e.1 (by simp)) (hpart e.2 (by simp))
        exact nested_enclosed (o := '\x7b') (c := '\x7d') rfl (by decide) (by decide)
          (nested_intercalate (by decide) hentries)
    all_goals exact (nested_text _ h).1

theorem splitFirst?_subset {pattern cs before after : List Char}
    (h : splitFirst? pattern cs = some (before, after)) : before ⊆ cs := by
  induction cs generalizing before with
  | nil =>
    rw [splitFirst?] at h
    split at h
    · obtain ⟨rfl, rfl⟩ : [] = before ∧ [] = after := by simpa using h
      exact List.Subset.refl _
    · cases h
  | cons c cs ih =>
    rw [splitFirst?] at h
    split at h
    · obtain ⟨rfl, -⟩ : [] = before ∧ _ := by simpa using h
      exact List.nil_subset _
    · obtain ⟨⟨tail, rest⟩, htail, heq⟩ := Option.map_eq_some_iff.mp h
      obtain ⟨rfl, rfl⟩ := by simpa using heq
      exact List.cons_subset_cons c (ih htail)

theorem madeOf_unknownFieldType (name : String) : madeOf [name] (unknownFieldType name) := by
  have hname : madeOf [name] name := madeOf_of_mem (List.mem_singleton_self name)
  unfold unknownFieldType
  split
  · next hsplit =>
    exact madeOf_sublist hname fun c hc => splitFirst?_subset hsplit (List.mem_cons_of_mem _ hc)
  · exact hname

theorem bracketsOf_letter (kind : StructuralKind) (hint : String) :
    bracketsOf (kind.letter hint) = [] :=
  (kind.madeOf_letter [] hint).brackets_nil (by simp)

theorem bracketsOf_ownershipMark (flags : PropertyFlags) (element : PropertyDesc) :
    bracketsOf (ownershipMark flags element) = [] := by
  unfold ownershipMark
  split <;> decide

theorem nested_getD {name : Option String} (h : ∀ s ∈ name.toList, bracketFree s) (unknown : String)
    (hu : bracketFree unknown) : Nested (bracketsOf (name.getD unknown)) := by
  cases name with
  | none => exact hu.nested
  | some name => exact (h name (by simp)).nested

theorem BasicType.nested_typeName (type : BasicType) : Nested (bracketsOf type.typeName) := by
  cases type <;> decide

theorem DelegateSort.nested_remark (sort : DelegateSort) : Nested (bracketsOf sort.remark) := by
  cases sort <;> decide

mutual

theorem PropertyDesc.nested_displayName : ∀ p : PropertyDesc, (∀ s ∈ p.strings, bracketFree s) →
    Nested (bracketsOf p.displayName)
  | ⟨_, flags, kind⟩, h => by
    have hkind :=
      PropertyKind.nested_typeName flags kind fun s hs => h s (by simp [PropertyDesc.strings, hs])
    simpa [PropertyDesc.displayName, bracketsOf_letter] using hkind

theorem PropertyKind.nested_typeName (flags : PropertyFlags) : ∀ kind : PropertyKind,
    (∀ s ∈ kind.strings, bracketFree s) → Nested (bracketsOf (kind.typeName flags))
  | .basic type, _ => type.nested_typeName
  | .object _ name, h => nested_getD h "UKN_ObjectPropertyClass" (by decide)
  | .class_ .strong name, h =>
    nested_append (nested_getD h "UKN_ObjectMetaClass" (by decide)) (by decide)
  | .class_ .soft name, h =>
    nested_append (nested_getD h "UKN_ObjectMetaClass" (by decide)) (by decide)
  | .interface name, h => nested_append (nested_getD h "UKN_InterfaceClass" (by decide)) (by decide)
  | .enumeration .enumeration name, h => nested_getD h "Enum" (by decide)
  | .enumeration .byte name, h => nested_getD h "Byte" (by decide)
  | .struct name, h => nested_getD h "Struct" (by decide)
  | .fieldPath name, h => nested_append (h name (by simp [PropertyKind.strings])).nested (by decide)
  | .delegate sort name, h =>
    nested_append (nested_getD h "UKN_SignatureFunction" (by decide)) sort.nested_remark
  | .array inner, h => by
    have hinner := PropertyDesc.nested_displayName inner h
    have hmarks : bracketsOf "TArray<" = [] ∧ bracketsOf ">" = [] := by decide
    simpa [PropertyKind.typeName, bracketsOf_ownershipMark, hmarks] using hinner
  | .set element, h => by
    have helement := PropertyDesc.nested_displayName element h
    have hmarks : bracketsOf "TSet<" = [] ∧ bracketsOf ">" = [] := by decide
    simpa [PropertyKind.typeName, bracketsOf_ownershipMark, hmarks] using helement
  | .map key value, h => by
    have hkey :=
      PropertyDesc.nested_displayName key fun s hs => h s (by simp [PropertyKind.strings, hs])
    have hvalue :=
      PropertyDesc.nested_displayName value fun s hs => h s (by simp [PropertyKind.strings, hs])
    have hmarks : bracketsOf "TMap<" = [] ∧ bracketsOf ", " = [] ∧ bracketsOf ">" = [] := by decide
    simpa [PropertyKind.typeName, bracketsOf_ownershipMark, hmarks] using hkey.append hvalue
  | .other name, h => ((madeOf_unknownFieldType name).bracketFree h).nested

end

end Pseudocode
