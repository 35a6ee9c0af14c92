import Pseudocode.Render.TypeName
import Mathlib.Data.List.Infix

/-! Types that are known by their engine name only. The name that is shown stands
between the first letter and the first `Property`; the cut is made at places in
the bytes of the name, and never falls inside a character. -/

namespace Pseudocode

section Split

variable {p : Char} {ps cs before after : List Char}

theorem splitFirst?_some (h : splitFirst? (p :: ps) cs = some (before, after)) :
    cs = before ++ p :: ps ++ after ∧ ¬ p :: ps <:+: before := by
  induction cs generalizing before with
  | nil => simp [splitFirst?] at h
  | cons c cs ih =>
    rw [splitFirst?] at h
    by_cases hprefix : p :: ps <+: c :: cs
    · rw [if_pos (List.isPrefixOf_iff_prefix.mpr hprefix)] at h
      obtain ⟨rfl, rfl⟩ : [] = before ∧ _ = after := by
        simpa only [Option.some.injEq, Prod.mk.injEq] using h
      obtain ⟨rest, hrest⟩ := hprefix
      exact ⟨by rw [← hrest, List.drop_left, List.nil_append], by simp⟩
    · rw [if_neg (mt List.isPrefixOf_iff_prefix.mp hprefix)] at h
      obtain ⟨⟨tail, rest⟩, htail, heq⟩ := Option.map_eq_some_iff.mp h
      obtain ⟨rfl, rfl⟩ : c :: tail = before ∧ rest = after := by
        simpa only [Prod.mk.injEq] using heq
      obtain ⟨rfl, hnone⟩ := ih htail
      refine ⟨rfl, fun hinfix => ?_⟩
      rcases List.infix_cons_iff.mp hinfix with hstart | hlater
      · exact hprefix (hstart.trans ⟨p :: ps ++ rest, by simp⟩)
      · exact hnone hlater

/-- A pattern whose first letter does not come again in it cannot begin in front
of itself and end in itself. -/
theorem not_prefix_overlap (hp : p ∉ ps) (hne : before ≠ []) (h : ¬ p :: ps <+: before)
    (after : List Char) : ¬ p :: ps <+: before ++ (p :: ps ++ after) := by
  intro hprefix
  rcases List.prefix_or_prefix_of_prefix hprefix
    (List.prefix_append before _) with hshort | ⟨rest, hrest⟩
  · exact h hshort
  · obtain ⟨b, before, rfl⟩ := List.exists_cons_of_ne_nil hne
    cases rest with
    | nil => exact h ⟨[], by rw [← hrest, List.append_nil, List.append_nil]⟩
    | cons q rest =>
      have hq : q = p := by
        have hboth : b :: before ++ q :: rest <+: b :: before ++ (p :: ps ++ after) :=
          (List.prefix_rfl.trans (hrest ▸ List.prefix_rfl)).trans hprefix
        exact (List.cons_prefix_cons.mp ((List.prefix_append_right_inj _).mp hboth)).1
      have hps : ps = before ++ q :: rest := (List.cons.inj hrest).2.symm
      exact hp (by simp [hps, hq])

theorem splitFirst?_append (hp : p ∉ ps) (h : ¬ p :: ps <:+: before) :
    splitFirst? (p :: ps) (before ++ (p :: ps ++ after)) = some (before, after) := by
  induction before with
  | nil => simp [splitFirst?, List.isPrefixOf_iff_prefix]
  | cons c before ih =>
    have hprefix :=
      not_prefix_overlap hp (List.cons_ne_nil c before) (mt List.IsPrefix.isInfix h) after
    rw [List.cons_append] at hprefix ⊢
    rw [splitFirst?, if_neg (mt List.isPrefixOf_iff_prefix.mp hprefix), ih (mt List.infix_cons h),
      Option.map_some]

end Split

/-- Whether a name is a letter, some text, `Property` and a rest, the first
`Property` in it being that one. -/
structure IsEngineName (name : String) (letter : Char) (middle rest : String) : Prop where
  parts : name = String.singleton letter ++ middle ++ "Property" ++ rest
  middle_ne : middle ≠ ""
  first : ¬ "Property".toList <:+: letter :: middle.toList

theorem propertyChars : "Property".toList = 'P' :: "roperty".toList := by decide

theorem IsEngineName.split {name middle rest : String} {letter : Char}
    (h : IsEngineName name letter middle rest) :
    splitFirst? "Property".toList name.toList = some (letter :: middle.toList, rest.toList) := by
  have hparts : name.toList = letter :: middle.toList ++ ("Property".toList ++ rest.toList) := by
    simp [h.parts]
  have hfirst := h.first
  rw [hparts, propertyChars] at *
  exact splitFirst?_append (by decide) hfirst

theorem isEngineName_of_split {name : String} {letter c : Char} {middle rest : List Char}
    (h : splitFirst? "Property".toList name.toList = some (letter :: c :: middle, rest)) :
    IsEngineName name letter (String.ofList (c :: middle)) (String.ofList rest) := by
  rw [propertyChars] at h
  obtain ⟨hparts, hfirst⟩ := splitFirst?_some h
  refine ⟨?_, by simp, ?_⟩
  · rw [← String.toList_inj, hparts]
    simp
  · rwa [propertyChars, String.toList_ofList (l := c :: middle)]

theorem IsEngineName.unknownFieldType_eq {name middle rest : String} {letter : Char}
    (h : IsEngineName name letter middle rest) : unknownFieldType name = middle := by
  obtain ⟨c, cs, hmiddle⟩ := List.exists_cons_of_ne_nil (mt String.toList_eq_nil_iff.mp h.middle_ne)
  have hname : name.toList = letter :: (middle.toList ++ ("Property".toList ++ rest.toList)) := by
    simp [h.parts]
  unfold unknownFieldType
  rw [h.split, hname, hmiddle]
  simp only
  rw [← hmiddle, String.ofList_toList]

theorem unknownFieldType_of_split {name : String}
    (h : ∀ letter c middle rest, splitFirst? "Property".toList name.toList ≠
      some (letter :: c :: middle, rest)) : unknownFieldType name = name := by
  unfold unknownFieldType
  split
  · next hsplit => exact absurd hsplit (h _ _ _ _)
  · rfl

def utf8 (cs : List Char) : List UInt8 := cs.flatMap String.utf8EncodeChar

theorem utf8_append (cs ds : List Char) : utf8 (cs ++ ds) = utf8 cs ++ utf8 ds :=
  List.flatMap_append

theorem utf8_cons (c : Char) (cs : List Char) :
    utf8 (c :: cs) = String.utf8EncodeChar c ++ utf8 cs :=
  List.flatMap_cons

def bytesOf (s : String) : List UInt8 := s.toUTF8.data.toList

theorem bytesOf_eq (s : String) : bytesOf s = utf8 s.toList := by
  rw [bytesOf, String.toUTF8_eq_toByteArray, ← String.utf8Encode_toList, List.utf8Encode,
    List.toList_data_toByteArray]
  rfl

def byteIndex? (pattern bytes : List UInt8) : Option Nat := bytes.tails.findIdx? pattern.isPrefixOf

/-- The bytes of the name of a type, cut at places: behind the first character,
however many bytes it has, and in front of the first `Property`, if that is
further on. -/
def engineNameBytes (name : String) : List UInt8 :=
  let start := (name.toList.head?.map Char.utf8Size).getD 0
  match byteIndex? (bytesOf "Property") (bytesOf name) with
  | some index => if start < index then ((bytesOf name).take index).drop start else bytesOf name
  | none => bytesOf name

theorem byteIndex?_of_front {pattern bytes : List UInt8} (h : pattern <+: bytes) :
    byteIndex? pattern bytes = some 0 := by
  have hbytes : pattern.isPrefixOf bytes = true := List.isPrefixOf_iff_prefix.mpr h
  unfold byteIndex?
  cases bytes with
  | nil => simp [List.tails, List.findIdx?_cons, hbytes]
  | cons b bytes => simp [List.tails, List.findIdx?_cons, hbytes]

theorem byteIndex?_append {pattern front rest : List UInt8}
    (h : ∀ i < front.length, ¬ pattern <+: (front ++ rest).drop i) :
    byteIndex? pattern (front ++ rest) = (byteIndex? pattern rest).map (· + front.length) := by
  induction front with
  | nil => simp
  | cons b front ih =>
    have hhead : pattern.isPrefixOf (b :: (front ++ rest)) = false := by
      simpa [← List.isPrefixOf_iff_prefix] using h 0 (by simp)
    have htail := ih fun i hi => h (i + 1) (by simpa using hi)
    unfold byteIndex? at htail ⊢
    rw [List.cons_append, List.tails, List.findIdx?_cons, hhead, htail]
    simp [Function.comp_def, Nat.add_assoc]

/-- A pattern begins at no byte of a character but the first. -/
theorem not_prefix_inside {c p : Char} {ps : List Char} {rest : List UInt8} {i : Nat} (hi : 0 < i)
    (hlast : i < (String.utf8EncodeChar c).length) :
    ¬ utf8 (p :: ps) <+: (String.utf8EncodeChar c ++ rest).drop i := by
  intro hprefix
  rw [utf8_cons] at hprefix
  have hpos : 0 < (String.utf8EncodeChar p).length :=
    List.length_pos_iff.mpr String.utf8EncodeChar_ne_nil
  have hfirst : (String.utf8EncodeChar p)[0] = (String.utf8EncodeChar c)[i] := by
    have hget := hprefix.getElem (i := 0) (by rw [List.length_append]; omega)
    simp only [List.getElem_append_left hpos, List.getElem_drop, Nat.add_zero] at hget
    rwa [List.getElem_append_left hlast] at hget
  have hbyte : ((String.utf8EncodeChar c)[i]).IsUTF8FirstByte :=
    hfirst ▸ UInt8.isUTF8FirstByte_getElem_zero_utf8EncodeChar
  exact hi.ne' (UInt8.isUTF8FirstByte_getElem_utf8EncodeChar.mp hbyte)

theorem prefix_of_utf8 {ps cs : List Char} (h : utf8 ps <+: utf8 cs) : ps <+: cs := by
  obtain ⟨rest, hrest⟩ := h
  refine List.isPrefix_of_utf8Encode_append_eq_utf8Encode rest.toByteArray ?_
  have hcs : cs.utf8Encode = (utf8 cs).toByteArray := rfl
  rw [hcs, ← hrest, List.toByteArray_append]
  rfl

/-- To look for a pattern in the bytes of a text is to look for it in the text. -/
theorem byteIndex?_utf8 (p : Char) (ps cs : List Char) :
    byteIndex? (utf8 (p :: ps)) (utf8 cs) = (splitFirst? (p :: ps) cs).map fun split =>
      (utf8 split.1).length := by
  induction cs with
  | nil => simp [byteIndex?, utf8, List.tails, splitFirst?, String.utf8EncodeChar_ne_nil]
  | cons c cs ih =>
    rw [splitFirst?]
    by_cases hprefix : p :: ps <+: c :: cs
    · obtain ⟨rest, hrest⟩ := hprefix
      have hbytes : utf8 (p :: ps) <+: utf8 (c :: cs) := by
        rw [← hrest, utf8_append]
        exact List.prefix_append _ _
      rw [byteIndex?_of_front hbytes, if_pos (List.isPrefixOf_iff_prefix.mpr ⟨rest, hrest⟩)]
      rfl
    · have hfront : ∀ i < (String.utf8EncodeChar c).length,
          ¬ utf8 (p :: ps) <+: (String.utf8EncodeChar c ++ utf8 cs).drop i := by
        intro i hi
        cases i with
        | zero => exact mt (fun h => prefix_of_utf8 (utf8_cons c cs ▸ h)) hprefix
        | succ i => exact not_prefix_inside (Nat.succ_pos i) hi
      rw [if_neg (mt List.isPrefixOf_iff_prefix.mp hprefix), utf8_cons c cs,
        byteIndex?_append hfront, ih]
      simp [Function.comp_def, utf8_cons, Nat.add_comm]

theorem utf8_length_pos (c : Char) (cs : List Char) : 0 < (utf8 (c :: cs)).length := by
  rw [utf8_cons, List.length_append, String.length_utf8EncodeChar]
  have hsize := c.utf8Size_pos
  omega

/-- The places in the bytes are ends of characters: the bytes between them are
those of the name that is shown. -/
theorem bytesOf_unknownFieldType (name : String) :
    bytesOf (unknownFieldType name) = engineNameBytes name := by
  have hindex : byteIndex? (bytesOf "Property") (bytesOf name) =
      (splitFirst? "Property".toList name.toList).map fun split => (utf8 split.1).length := by
    rw [bytesOf_eq, bytesOf_eq, propertyChars]
    exact byteIndex?_utf8 _ _ _
  unfold engineNameBytes
  rw [hindex]
  cases hsplit : splitFirst? "Property".toList name.toList with
  | none => rw [unknownFieldType_of_split (fun _ _ _ _ => by rw [hsplit]; simp), Option.map_none]
  | some split =>
    obtain ⟨before, after⟩ := split
    have hname : name.toList = before ++ "Property".toList ++ after := by
      rw [propertyChars] at hsplit
      exact (splitFirst?_some hsplit).1
    rcases before with _ | ⟨c, _ | ⟨d, middle⟩⟩
    · rw [unknownFieldType_of_split (fun _ _ _ _ => by rw [hsplit]; simp), Option.map_some]
      rfl
    · rw [unknownFieldType_of_split (fun _ _ _ _ => by rw [hsplit]; simp), Option.map_some, hname]
      simp [utf8]
    · have hengine := isEngineName_of_split hsplit
      have hstart :
          (name.toList.head?.map Char.utf8Size).getD 0 = (String.utf8EncodeChar c).length := by
        rw [hname, String.length_utf8EncodeChar]
        rfl
      have hbytes :
          bytesOf name = utf8 (c :: d :: middle) ++ utf8 ("Property".toList ++ after) := by
        rw [bytesOf_eq, hname, List.append_assoc, utf8_append]
      have hlt : (String.utf8EncodeChar c).length < (utf8 (c :: d :: middle)).length := by
        have hmiddle := utf8_length_pos d middle
        rw [utf8_cons, List.length_append]
        omega
      rw [hengine.unknownFieldType_eq, hstart, hbytes, Option.map_some]
      simp only [if_pos hlt, List.take_left]
      rw [utf8_cons, List.drop_left, bytesOf_eq, String.toList_ofList]

/-- What stands between the first letter and the first `Property` of a name is
shown; any other name is shown as it is. Either way it is the cut in the bytes. -/
theorem unknownFieldType_cut (name : String) :
    (∀ letter middle rest, IsEngineName name letter middle rest → unknownFieldType name = middle) ∧
      ((∀ letter middle rest, ¬ IsEngineName name letter middle rest) →
        unknownFieldType name = name) ∧
        bytesOf (unknownFieldType name) = engineNameBytes name := by
  refine ⟨fun _ _ _ h => h.unknownFieldType_eq, fun h => ?_, bytesOf_unknownFieldType name⟩
  exact unknownFieldType_of_split fun _ _ _ _ hsplit => h _ _ _ (isEngineName_of_split hsplit)

theorem unknownFieldType_cut_behindWideLetter :
    unknownFieldType "ÜberPropPropertyProperty" = "berProp" ∧ unknownFieldType "ÜProperty" =
      "ÜProperty" := by
  have hcut : IsEngineName "ÜberPropPropertyProperty" 'Ü' "berProp" "Property" :=
    ⟨by decide +kernel, by decide, by decide +kernel⟩
  have hkept : ∀ letter middle rest, ¬ IsEngineName "ÜProperty" letter middle rest := by
    intro letter middle rest h
    have hlength := congrArg String.length h.parts
    have hname : "ÜProperty".length = 9 ∧ "Property".length = 8 := by decide +kernel
    simp only [String.length_append, String.length_singleton, hname] at hlength
    exact h.middle_ne (String.length_eq_zero_iff.mp (by omega))
  exact ⟨(unknownFieldType_cut "ÜberPropPropertyProperty").1 _ _ _ hcut,
    (unknownFieldType_cut "ÜProperty").2.1 hkept⟩

end Pseudocode
