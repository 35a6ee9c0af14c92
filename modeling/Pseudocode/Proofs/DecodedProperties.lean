import Pseudocode.Proofs.DecodedMembers

/-! Property values, whose tag may stand behind the value. A value in front of
its tag is kept until the tag is known, and is decoded as if it had been read to
its end. -/

namespace Pseudocode

theorem readFields_value (t : ValueTag) (mode : ReadMode) (rs : List (String × Reading)) :
    ((readFields mode [t.field] rs).map fun a => t.build a.1) =
      (fieldUnder t.field mode (sole "value" rs)).map t.build := by
  have hname : t.field.name = "value" := by cases t <;> rfl
  rw [readFields, hname]
  cases fieldUnder t.field mode (sole "value" rs) <;> rfl

theorem toOption_checkRest (mode : ReadMode) (ms : List (String × Json)) :
    (checkRest mode (Json.membersDraft none ms)).toOption =
      if "type" ∈ ms.map Prod.fst ∨ "value" ∈ ms.map Prod.fst then none else some () := by
  induction ms with
  | nil => rfl
  | cons m ms ih =>
    obtain ⟨key, v⟩ := m
    have hcons : checkRest mode (Json.membersDraft none ((key, v) :: ms)) =
        if key = "type" ∨ key = "value" then failWith (.duplicateField key)
        else checkRest mode (Json.membersDraft none ms) := by
      rw [Json.membersDraft, checkRest]
      simp [pass_draft, bind, Except.bind]
    rw [hcons]
    by_cases hkey : key = "type" ∨ key = "value"
    · rw [if_pos hkey, if_pos]
      · rfl
      · rcases hkey with rfl | rfl <;> simp
    · rw [if_neg hkey, ih]
      rw [not_or] at hkey
      simp only [mem_keys_ne hkey.1, mem_keys_ne hkey.2]

theorem tagOf_ne {τ : Type} {name key : String} (h : key ≠ name) (dec : Draft → Decoded τ)
    (v : Json) (ms : List (String × Json)) :
    tagOf name dec ((key, v) :: ms) = tagOf name dec ms := by
  rw [tagOf, tagOf, sole_cons_ne h]

theorem tagOf_self {τ : Type} (name : String) (dec : Draft → Decoded τ) (v : Json)
    (ms : List (String × Json)) :
    tagOf name dec ((name, v) :: ms) = if name ∈ ms.map Prod.fst then none
      else (dec (v.draft none)).toOption := by
  rw [tagOf, sole_cons_self]
  by_cases hmem : name ∈ ms.map Prod.fst
  · simp only [if_pos hmem]
  · simp only [if_neg hmem]

abbrev decodeValueTag (mode : ReadMode) : Draft → Decoded ValueTag :=
  decodeName ValueTag.all ValueTag.tag mode

theorem seekTag_type (mode : ReadMode) (read : ValueTag → Decoded PropertyValue) (d : Draft)
    (rest : List (Quotation × Draft)) :
    seekTag mode .closed read ((.closed "type", d) :: rest) =
      (decodeValueTag mode d).bind fun t => (read t).bind fun x =>
        (checkRest mode rest).map fun _ => x := by
  rw [seekTag]
  rfl

theorem toOption_seekTag (mode : ReadMode) (read : ValueTag → Decoded PropertyValue)
    (ms : List (String × Json)) :
    (seekTag mode .closed read (Json.membersDraft none ms)).toOption =
      if "value" ∈ ms.map Prod.fst then none
      else (tagOf "type" (decodeValueTag mode) ms).bind fun t => (read t).toOption := by
  induction ms with
  | nil => rfl
  | cons m ms ih =>
    obtain ⟨key, v⟩ := m
    by_cases htype : key = "type"
    · subst htype
      have hvalue := mem_keys_ne (show "type" ≠ "value" by decide) v ms
      rw [Json.membersDraft, seekTag_type]
      simp only [toOption_except_bind, toOption_map, toOption_checkRest, hvalue, tagOf_self]
      by_cases htype : "type" ∈ ms.map Prod.fst
      · simp [htype]
      · by_cases hvalue : "value" ∈ ms.map Prod.fst
        · simp [hvalue]
        · simp [htype, hvalue]
    · by_cases hvalue : key = "value"
      · subst hvalue
        rw [if_pos (by simp), Json.membersDraft, seekTag]
        rfl
      · simp only [mem_keys_ne hvalue, tagOf_ne htype]
        rw [← ih, Json.membersDraft, seekTag]
        simp [htype, hvalue, pass_draft, bind, Except.bind]

theorem toOption_decodeTagged_some (mode : ReadMode) (t : ValueTag) {ms : List (String × Json)}
    (hms : ∀ m ∈ ms, Agrees m.2) :
    (decodeTagged mode .closed (some t) (Json.membersDraft none ms)).toOption =
      if "type" ∈ ms.map Prod.fst then none
      else (fieldUnder t.field mode (sole "value" (Json.membersReading true ms))).map t.build := by
  induction ms with
  | nil =>
    rw [Json.membersDraft, decodeTagged, Json.membersReading, sole_nil, fieldUnder]
    simp only [ObjectEnd.fault?, checkFault, bind, Except.bind]
    cases t.field.absent <;> rfl
  | cons m ms ih =>
    obtain ⟨key, v⟩ := m
    have ih := ih fun m hm => hms m (List.mem_cons_of_mem _ hm)
    by_cases htype : key = "type"
    · subst htype
      rw [if_pos (by simp), Json.membersDraft, decodeTagged]
      rfl
    · by_cases hvalue : key = "value"
      · subst hvalue
        have hv := (hms _ List.mem_cons_self).field t.field mode
        rw [Json.membersDraft, decodeTagged_value, Json.membersReading, sole_cons_self,
          toOption_except_bind, hv, Json.keys_membersReading]
        simp only [mem_keys_ne htype, toOption_except_bind, toOption_checkRest]
        by_cases htype : "type" ∈ ms.map Prod.fst
        · simp [htype]
        · by_cases hvalue : "value" ∈ ms.map Prod.fst
          · simp [hvalue, fieldUnder]
          · simp only [htype, hvalue, or_self, if_false, Option.bind_some, fieldUnder]
            cases (v.reading true).field t.field mode <;> rfl
      · simp only [mem_keys_ne htype, Json.membersReading, sole_cons_ne hvalue]
        rw [← ih, Json.membersDraft, decodeTagged]
        simp [htype, hvalue, pass_draft, bind, Except.bind]

theorem decodeTagged_valueFirst (mode : ReadMode) (ending : ObjectEnd) (d : Draft)
    (rest : List (Quotation × Draft)) :
    decodeTagged mode ending none ((.closed "value", d) :: rest) =
      (mode.buffer d).bind fun _ => seekTag mode ending
        (fun t => (readField t.field d fun s => decode s .buffered d).map t.build) rest := by
  rw [decodeTagged]
  rfl

theorem toOption_decodeTagged_none (mode : ReadMode) {ms : List (String × Json)}
    (hms : ∀ m ∈ ms, Agrees m.2) (hrange : ∀ m ∈ ms, m.2.inRange) :
    (decodeTagged mode .closed none (Json.membersDraft none ms)).toOption =
      (tagOf "type" (decodeValueTag mode) ms).bind fun t =>
        (fieldUnder t.field (if valueFirst ms then .buffered else mode)
          (sole "value" (Json.membersReading true ms))).map t.build := by
  induction ms with
  | nil =>
    rw [Json.membersDraft, decodeTagged]
    rfl
  | cons m ms ih =>
    obtain ⟨key, v⟩ := m
    have ih := ih (fun m hm => hms m (List.mem_cons_of_mem _ hm)) fun m hm =>
      hrange m (List.mem_cons_of_mem _ hm)
    by_cases htype : key = "type"
    · subst htype
      have hrest (t : ValueTag) :=
        toOption_decodeTagged_some mode t fun m hm => hms m (List.mem_cons_of_mem _ hm)
      rw [Json.membersDraft, decodeTagged_type, toOption_except_bind]
      have hfirst : valueFirst (("type", v) :: ms) = false := rfl
      have hsole : sole "value" (("type", v.reading true) :: Json.membersReading true ms) =
          sole "value" (Json.membersReading true ms) := sole_cons_ne (by decide)
      simp only [hrest, tagOf_self, Json.membersReading, hfirst, hsole,
        Bool.false_eq_true, if_false]
      by_cases htype : "type" ∈ ms.map Prod.fst
      · simp [htype]
      · simp [htype]
    · by_cases hvalue : key = "value"
      · subst hvalue
        have hv := hms _ List.mem_cons_self
        have hfirst : valueFirst (("value", v) :: ms) = true := rfl
        rw [Json.membersDraft, decodeTagged_valueFirst,
          buffer_draft mode (hrange _ List.mem_cons_self), Except.bind, toOption_seekTag,
          tagOf_ne htype, hfirst, Json.membersReading, sole_cons_self, Json.keys_membersReading]
        simp only [if_true, toOption_map, fun t : ValueTag => hv.field t.field .buffered]
        by_cases hvalue : "value" ∈ ms.map Prod.fst
        · simp [hvalue, fieldUnder]
        · simp [hvalue, fieldUnder]
      · have hfirst : valueFirst ((key, v) :: ms) = valueFirst ms := by
          simp [valueFirst, htype, hvalue]
        rw [hfirst, tagOf_ne htype, Json.membersReading, sole_cons_ne hvalue, ← ih,
          Json.membersDraft, decodeTagged]
        simp [htype, hvalue, pass_draft, bind, Except.bind]

end Pseudocode
