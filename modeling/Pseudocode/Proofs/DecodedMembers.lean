import Pseudocode.Proofs.Reading

/-! Going through the members of an object. Looking the fields and the tag up by
name gives the same, in whatever order the members come. -/

namespace Pseudocode

theorem toOption_bind {α β : Type} (x : Decoded α) (f : α → Decoded β) :
    (x >>= f).toOption = x.toOption.bind fun a => (f a).toOption := by
  cases x <;> rfl

theorem toOption_except_bind {α β : Type} (x : Decoded α) (f : α → Decoded β) :
    (x.bind f).toOption = x.toOption.bind fun a => (f a).toOption := toOption_bind x f

theorem toOption_map {α β : Type} (x : Decoded α) (f : α → β) :
    (x.map f).toOption = x.toOption.map f := by
  cases x <;> rfl

theorem toOption_eq_some {α : Type} {x : Decoded α} {a : α} : x.toOption = some a ↔ x = .ok a := by
  cases x <;> simp [Except.toOption]

theorem toOption_mismatch {α : Type} (d : Draft) (expected : String) :
    (d.mismatch expected : Decoded α).toOption = none := by
  rw [Draft.mismatch, toOption_bind]
  cases d.found.toOption <;> rfl

/-- What the slot of a field holds when all members have been gone through. -/
def slotAfter (f : Field) (mode : ReadMode) (slot : Option f.Carrier)
    (rs : List (String × Reading)) : Option (Option f.Carrier) :=
  match slot, sole f.name rs with
  | slot, some none => some slot
  | none, some (some r) => (r.field f mode).map some
  | _, _ => none

theorem slotAfter_ne {f : Field} {key : String} (h : f.name ≠ key) (mode : ReadMode)
    (slot : Option f.Carrier) (r : Reading) (rs : List (String × Reading)) :
    slotAfter f mode slot ((key, r) :: rs) = slotAfter f mode slot rs := by
  unfold slotAfter
  rw [sole_cons_ne (Ne.symm h)]

theorem slotAfter_filled (f : Field) (mode : ReadMode) (a : f.Carrier)
    (rs : List (String × Reading)) :
    slotAfter f mode (some a) rs = if f.name ∈ rs.map Prod.fst then none else some (some a) := by
  unfold slotAfter
  by_cases hmem : f.name ∈ rs.map Prod.fst
  · rw [if_pos hmem]
    have hsole := mt sole_eq_none_iff.mp (not_not.mpr hmem)
    cases hs : sole f.name rs with
    | none => rfl
    | some r? =>
      cases r? with
      | none => exact absurd hs hsole
      | some r => rfl
  · rw [if_neg hmem, sole_eq_none_iff.mpr hmem]

theorem slotAfter_self (f : Field) (mode : ReadMode) (r : Reading) (rs : List (String × Reading)) :
    slotAfter f mode none ((f.name, r) :: rs) = (r.field f mode).bind fun a =>
      slotAfter f mode (some a) rs := by
  simp only [slotAfter_filled]
  unfold slotAfter
  rw [sole_cons_self]
  by_cases hmem : f.name ∈ rs.map Prod.fst
  · simp only [if_pos hmem, Option.bind_fun_none]
  · simp only [if_neg hmem]
    cases r.field f mode <;> rfl

/-- Whether a value is decoded in all shapes as it is read. -/
def Agrees (v : Json) : Prop :=
  ∀ s mode, (decode s mode (v.draft none)).toOption = (v.reading true).as s mode

theorem isNull_reading (ordered : Bool) (v : Json) :
    (v.reading ordered).isNull = (v.draft none).isNull := by
  cases v <;> rfl

theorem Agrees.field {v : Json} (h : Agrees v) (f : Field) (mode : ReadMode) :
    (readField f (v.draft none) fun s => decode s mode (v.draft none)).toOption =
      (v.reading true).field f mode := by
  obtain ⟨name, s, nullable, absent⟩ := f
  cases nullable with
  | false => exact h s mode
  | true =>
    rw [Reading.field, isNull_reading]
    unfold readField
    cases hd : v.draft none with
    | null => rfl
    | _ =>
      simp only [Draft.isNull, Bool.false_eq_true, if_false]
      rw [toOption_bind, ← hd, ← h s mode]
      cases (decode s mode (v.draft none)).toOption <;> rfl

theorem decodeMembers_nil (fs : List Field) (mode : ReadMode) (slots : Slots fs) :
    decodeMembers fs mode slots [] = .ok slots := by
  rw [decodeMembers]

theorem decodeMembers_first {f : Field} {fs : List Field} (hf : f.name ∉ fs.map Field.name)
    (mode : ReadMode) {ms : List (String × Json)} (hms : ∀ m ∈ ms, Agrees m.2)
    (slot : Option f.Carrier) (slots : Slots fs) :
    (decodeMembers (f :: fs) mode (slot, slots) (Json.membersDraft none ms)).toOption =
      (slotAfter f mode slot (Json.membersReading true ms)).bind fun a =>
        (decodeMembers fs mode slots (Json.membersDraft none ms)).toOption.map (a, ·) := by
  induction ms generalizing slot slots with
  | nil =>
    rw [Json.membersDraft, decodeMembers_nil, decodeMembers_nil]
    cases slot <;> rfl
  | cons m ms ih =>
    obtain ⟨key, v⟩ := m
    have ih := ih fun m hm => hms m (List.mem_cons_of_mem _ hm)
    by_cases hkey : f.name = key
    · subst hkey
      have hv := (hms (f.name, v) List.mem_cons_self).field f mode
      rw [Json.membersDraft, decodeMembers_cons, Slots.fill_cons, if_pos rfl,
        decodeMembers_foreign hf, Json.membersReading]
      cases slot with
      | some a =>
        rw [slotAfter_filled, if_pos (by simp)]
        rfl
      | none =>
        rw [slotAfter_self, ← hv, toOption_except_bind, toOption_bind]
        cases hread :
            (readField f (v.draft none) fun s => decode s mode (v.draft none)).toOption with
        | none => rfl
        | some a => exact ih (some a) slots
    · rw [Json.membersDraft, decodeMembers_cons, decodeMembers_cons, Slots.fill_cons, if_neg hkey,
        Json.membersReading, slotAfter_ne hkey]
      cases Slots.fill key (fun f => readField f (v.draft none) fun s =>
          decode s mode (v.draft none)) fs slots with
      | error e =>
        cases slotAfter f mode slot (Json.membersReading true ms) <;> rfl
      | ok filled =>
        cases filled with
        | some slots => exact ih slot slots
        | none =>
          have hpass : mode.pass (v.draft none) = .ok () := by
            cases mode with
            | direct => simp [ReadMode.pass, v.skipFault?_draft none, checkFault]
            | buffered => rfl
          rw [hpass]
          exact ih slot slots

theorem decodeMembers_none (mode : ReadMode) (ms : List (String × Json)) :
    decodeMembers [] mode () (Json.membersDraft none ms) = .ok () := by
  induction ms with
  | nil => rw [Json.membersDraft, decodeMembers_nil]
  | cons m ms ih => rw [Json.membersDraft, decodeMembers_foreign (by simp), ih]

theorem toOption_finish (f : Field) (fs : List Field) (slot : Option f.Carrier) (slots : Slots fs) :
    (Slots.finish (f :: fs) (slot, slots)).toOption =
      (slot.or f.absent).bind fun a => (Slots.finish fs slots).toOption.map (a, ·) := by
  rw [Slots.finish]
  cases slot.or f.absent with
  | none => rfl
  | some a =>
    simp only [toOption_bind]
    cases (Slots.finish fs slots).toOption <;> rfl

theorem finish_first (f : Field) (fs : List Field) (slot : Option f.Carrier)
    (filled : Option (Slots fs)) :
    (filled.map (slot, ·)).bind (fun slots : Slots (f :: fs) =>
      (Slots.finish (f :: fs) slots).toOption) =
      (slot.or f.absent).bind fun a =>
        (filled.bind fun slots => (Slots.finish fs slots).toOption).map (a, ·) := by
  cases filled with
  | none => cases slot.or f.absent <;> rfl
  | some slots => exact toOption_finish f fs slot slots

/-- Fields are decoded as they are read, in whatever order their members come. -/
theorem toOption_decodeFields {fs : List Field} (hnodup : (fs.map Field.name).Nodup)
    (mode : ReadMode) {ms : List (String × Json)} (hms : ∀ m ∈ ms, Agrees m.2) :
    ((decodeMembers fs mode (Slots.empty fs) (Json.membersDraft none ms)).toOption.bind fun slots =>
      (Slots.finish fs slots).toOption) = readFields mode fs (Json.membersReading true ms) := by
  induction fs with
  | nil =>
    rw [Slots.empty, decodeMembers_none]
    rfl
  | cons f fs ih =>
    rw [List.map_cons, List.nodup_cons] at hnodup
    have ih := ih hnodup.2
    rw [Slots.empty, decodeMembers_first hnodup.1 mode hms, readFields, ← ih]
    unfold slotAfter
    cases sole f.name (Json.membersReading true ms) with
    | none => rfl
    | some r? =>
      cases r? with
      | none => exact finish_first f fs none _
      | some r =>
        cases hr : r.field f mode with
        | none => simp only [fieldUnder, hr, Option.map_none, Option.bind_none]
        | some a =>
          simp only [fieldUnder, hr, Option.map_some, Option.bind_some]
          exact finish_first f fs (some a) _

theorem mem_keys_ne {name key : String} (h : key ≠ name) (v : Json) (ms : List (String × Json)) :
    name ∈ ((key, v) :: ms).map Prod.fst ↔ name ∈ ms.map Prod.fst := by
  simp [Ne.symm h]

theorem buffer_draft (mode : ReadMode) {v : Json} (h : v.inRange) :
    mode.buffer (v.draft none) = .ok () := by
  cases mode with
  | direct => simp [ReadMode.buffer, Json.fault?_draft_none h, checkFault]
  | buffered => rfl

theorem pass_draft (mode : ReadMode) (v : Json) : mode.pass (v.draft none) = .ok () := by
  cases mode with
  | direct => simp [ReadMode.pass, v.skipFault?_draft none, checkFault]
  | buffered => rfl

theorem findTag_self {τ : Type} (name : String) (dec : Draft → Decoded τ) (mode : ReadMode)
    (found : Option τ) (d : Draft) (rest : List (Quotation × Draft)) :
    findTag name dec mode found ((.closed name, d) :: rest) =
      match found with
      | some _ => failWith (.duplicateField name)
      | none => (dec d).bind fun t => findTag name dec mode (some t) rest := by
  cases found <;> simp [findTag, bind, Except.bind]

theorem findTag_ne {τ : Type} {name key : String} (h : key ≠ name) (dec : Draft → Decoded τ)
    (mode : ReadMode) (found : Option τ) (d : Draft) (rest : List (Quotation × Draft)) :
    findTag name dec mode found ((.closed key, d) :: rest) =
      (mode.buffer d).bind fun _ => findTag name dec mode found rest := by
  cases found <;> simp [findTag, h, bind, Except.bind]

/-- Behind a tag, there must not be another one. -/
theorem toOption_findTag_some {τ : Type} (name : String) (dec : Draft → Decoded τ) (mode : ReadMode)
    (t : τ) {ms : List (String × Json)} (hms : ∀ m ∈ ms, m.2.inRange) :
    (findTag name dec mode (some t) (Json.membersDraft none ms)).toOption =
      if name ∈ ms.map Prod.fst then none else some (some t) := by
  induction ms with
  | nil => rfl
  | cons m ms ih =>
    obtain ⟨key, v⟩ := m
    have ih := ih fun m hm => hms m (List.mem_cons_of_mem _ hm)
    rw [Json.membersDraft]
    by_cases hkey : key = name
    · subst hkey
      rw [findTag_self, if_pos (by simp)]
      rfl
    · rw [findTag_ne hkey, buffer_draft mode (hms _ List.mem_cons_self), Except.bind, ih]
      simp only [mem_keys_ne hkey]

/-- To look for a tag is to look it up, if nothing beside it is too large to be read. -/
theorem toOption_findTag {τ : Type} (name : String) (dec : Draft → Decoded τ) (mode : ReadMode)
    {ms : List (String × Json)} (hms : ∀ m ∈ ms, m.2.inRange) :
    (findTag name dec mode none (Json.membersDraft none ms)).toOption =
      match sole name ms with
      | some (some v) => (dec (v.draft none)).toOption.map some
      | some none => some none
      | none => none := by
  induction ms with
  | nil => rfl
  | cons m ms ih =>
    obtain ⟨key, v⟩ := m
    have hrest : ∀ m ∈ ms, m.2.inRange := fun m hm => hms m (List.mem_cons_of_mem _ hm)
    rw [Json.membersDraft]
    by_cases hkey : key = name
    · subst hkey
      rw [findTag_self, sole_cons_self]
      simp only [toOption_except_bind, toOption_findTag_some key dec mode _ hrest]
      by_cases hmem : key ∈ ms.map Prod.fst
      · simp only [if_pos hmem, Option.bind_fun_none]
      · simp only [if_neg hmem]
        cases (dec (v.draft none)).toOption <;> rfl
    · rw [findTag_ne hkey, buffer_draft mode (hms _ List.mem_cons_self), Except.bind, ih hrest,
        sole_cons_ne hkey]

theorem toOption_requireTag {τ : Type} (name : String) (dec : Draft → Decoded τ) (mode : ReadMode)
    {ms : List (String × Json)} (hms : ∀ m ∈ ms, m.2.inRange) :
    (requireTag name dec mode (Json.membersDraft none ms) .closed).toOption =
      tagOf name dec ms := by
  rw [requireTag, toOption_bind, toOption_findTag name dec mode hms, tagOf]
  cases sole name ms with
  | none => rfl
  | some v? =>
    cases v? with
    | none => rfl
    | some v =>
      simp only
      cases (dec (v.draft none)).toOption <;> rfl

theorem toOption_findIndex (mode : ReadMode) {ms : List (String × Json)}
    (hrange : ∀ m ∈ ms, m.2.inRange) (hms : ∀ m ∈ ms, Agrees m.2) :
    (findTag "statement_index" (decodeInt .u32) mode none (Json.membersDraft none ms)).toOption.map
      (·.getD 0) =
      fieldUnder Shape.indexField .buffered
        (sole "statement_index" (Json.membersReading true ms)) := by
  rw [toOption_findTag "statement_index" (decodeInt .u32) mode hrange, Json.sole_membersReading]
  cases hsole : sole "statement_index" ms with
  | none => rfl
  | some v? =>
    cases v? with
    | none => rfl
    | some v =>
      have hv := hms _ (sole_mem hsole) (.int .u32) .buffered
      rw [decode] at hv
      simp only [Option.map_some, fieldUnder, Reading.field, ← hv]
      cases (decodeInt .u32 (v.draft none)).toOption <;> rfl

end Pseudocode
