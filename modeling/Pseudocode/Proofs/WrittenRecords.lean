import Pseudocode.Proofs.JsonText
import Pseudocode.Proofs.Written

/-! Records that are written with their fields in order. Decoding one gives what
its fields give, as the text is read and after it has been read, and a text that
is too deep is noticed in whatever field it is. -/

namespace Pseudocode

@[simp] theorem Quotation.read_closed (s : String) : (Quotation.closed s).read = .ok s := rfl

/-- No shape has a value that is written as null. -/
theorem decode_null (s : Shape) (mode : ReadMode) : ∃ e, decode s mode .null = .error e := by
  cases s <;> cases mode <;> simp [decode, decodeInt, decodeWide, decodeNarrow, decodeBool,
    decodeText, decodeName, Draft.mismatch, Draft.found, failWith]
  all_goals exact ⟨_, rfl⟩

namespace Slots

theorem fill_cons (name : String) (read : (f : Field) → Decoded f.Carrier) (f : Field)
    (fs : List Field) (slot : Option f.Carrier) (slots : Slots fs) :
    fill name read (f :: fs) (slot, slots) =
      if f.name = name then
        match slot with
        | some _ => failWith (.duplicateField name)
        | none => do return some (some (← read f), slots)
      else do return (← fill name read fs slots).map (slot, ·) :=
  rfl

theorem fill_foreign {name : String} {fs : List Field} (h : name ∉ fs.map Field.name)
    (read : (f : Field) → Decoded f.Carrier) (slots : Slots fs) :
    fill name read fs slots = .ok none := by
  induction fs with
  | nil => rfl
  | cons f fs ih =>
    obtain ⟨slot, slots⟩ := slots
    simp only [List.map_cons, List.mem_cons, not_or] at h
    rw [fill_cons, if_neg (Ne.symm h.1), ih h.2]
    rfl

end Slots

theorem decodeMembers_cons (fs : List Field) (mode : ReadMode) (slots : Slots fs) (key : String)
    (d : Draft) (rest : List (Quotation × Draft)) :
    decodeMembers fs mode slots ((.closed key, d) :: rest) =
      (Slots.fill key (fun f => readField f d fun s => decode s mode d) fs slots).bind fun
        | some slots => decodeMembers fs mode slots rest
        | none => (mode.pass d).bind fun _ => decodeMembers fs mode slots rest := by
  rw [decodeMembers]
  rfl

theorem decodeMembers_foreign {fs : List Field} {key : String} (h : key ∉ fs.map Field.name)
    (mode : ReadMode) (slots : Slots fs) (v : Json) (room : Option Nat)
    (rest : List (Quotation × Draft)) :
    decodeMembers fs mode slots ((.closed key, v.draft room) :: rest) =
      decodeMembers fs mode slots rest := by
  have hpass : mode.pass (v.draft room) = .ok () := by
    cases mode with
    | direct => simp [ReadMode.pass, v.skipFault?_draft room, checkFault]
    | buffered => rfl
  rw [decodeMembers_cons, Slots.fill_foreign h, Except.bind, hpass, Except.bind]

theorem decodeMembers_skip {f : Field} {ms : List (String × Json)} (h : f.name ∉ ms.map Prod.fst)
    (fs : List Field) (mode : ReadMode) (slot : Option f.Carrier) (slots : Slots fs)
    (room : Option Nat) :
    decodeMembers (f :: fs) mode (slot, slots) (Json.membersDraft room ms) =
      (decodeMembers fs mode slots (Json.membersDraft room ms)).map (slot, ·) := by
  induction ms generalizing slots with
  | nil => rw [Json.membersDraft, decodeMembers, decodeMembers]; rfl
  | cons m ms ih =>
    obtain ⟨key, v⟩ := m
    simp only [List.map_cons, List.mem_cons, not_or] at h
    rw [Json.membersDraft, decodeMembers_cons, decodeMembers_cons, Slots.fill_cons, if_neg h.1]
    cases hfill : Slots.fill key (fun f => readField f (v.draft room) fun s =>
        decode s mode (v.draft room)) fs slots with
    | error e => rfl
    | ok filled =>
      cases filled with
      | some slots => exact ih h.2 slots
      | none =>
        cases hpass : mode.pass (v.draft room) with
        | error e => simp [bind, Except.bind, pure, Except.pure, Except.map]
        | ok _ =>
          simpa [bind, Except.bind, pure, Except.pure, hpass] using ih h.2 slots

theorem ok_of_bind {α β : Type} {x : Decoded α} {f : α → Decoded β} {b : β} (h : x >>= f = .ok b) :
    ∃ a, x = .ok a ∧ f a = .ok b := by
  cases x with
  | error e => cases h
  | ok a => exact ⟨a, rfl, h⟩

theorem ok_of_map {ε α β : Type} {x : Except ε α} {f : α → β} {b : β} (h : x.map f = .ok b) :
    ∃ a, x = .ok a ∧ f a = b := by
  cases x with
  | error e => cases h
  | ok a => exact ⟨a, rfl, Except.ok.inj h⟩

theorem ok_of_checkDepth {α : Type} {room : Option Nat} {f : Unit → Decoded α} {x : α}
    (h : checkDepth (room = some 0) >>= f = .ok x) : room ≠ some 0 ∧ f () = .ok x := by
  by_cases hroom : room = some 0
  · simp [hroom, checkDepth] at h
    cases h
  · refine ⟨hroom, ?_⟩
    simp only [checkDepth, hroom] at h
    exact h

/-- What is decoded from a value where only so many lists and objects may be opened. -/
def within {α : Type} (depth room : Nat) (x : α) : Decoded α :=
  if depth ≤ room then .ok x else .error (.fault .tooDeep)

theorem within_of_le {α : Type} {depth room : Nat} (h : depth ≤ room) (x : α) :
    within depth room x = .ok x :=
  if_pos h

theorem within_bind {α β : Type} {a b room : Nat} {x : α} {y : β} {f : α → Decoded β}
    (h : a ≤ room → f x = within b room y) :
    (within a room x).bind f = within (max a b) room y := by
  by_cases ha : a ≤ room
  · have hmax : max a b ≤ room ↔ b ≤ room := by omega
    rw [within_of_le ha, Except.bind, h ha, within, within]
    simp only [hmax]
  · have hmax : ¬ max a b ≤ room := by omega
    rw [within, within, if_neg ha, if_neg hmax]
    rfl

theorem within_map {α β : Type} (a room : Nat) (x : α) (f : α → β) :
    (within a room x).map f = within a room (f x) := by
  unfold within
  split <;> rfl

theorem within_bind_ok {α β : Type} {a room : Nat} {x : α} {y : β} {f : α → Decoded β}
    (h : a ≤ room → f x = .ok y) : (within a room x).bind f = within a room y := by
  unfold within
  split
  · exact h ‹_›
  · rfl

theorem checkDepth_bind {α : Type} {depth room : Nat} {x : α} {f : Unit → Decoded α}
    (h : ∀ r, room = r + 1 → f () = within depth r x) :
    (checkDepth (some room = some 0)).bind f = within (depth + 1) room x := by
  cases room with
  | zero => simp [checkDepth, within, Except.bind]
  | succ r => simp [checkDepth, within, Except.bind, h r rfl]

/-- Whether a stored number is read back. -/
def Json.survives : Json → Prop
  | .wide x => Shape.wide.ofJson (Json.wide x).text = .ok x
  | .narrow x => Shape.narrow.ofJson (Json.narrow x).text = .ok x
  | _ => True

/-- What is expected of a value that `x` is written as. -/
structure Decodes {α : Type} (decode : ReadMode → Draft → Decoded α) (v : Json) (x : α) : Prop where
  inRange : v.inRange
  direct : ∀ room, decode .direct (v.draft (some room)) = within v.depth room x
  buffered : decode .buffered (v.draft none) = .ok x

abbrev Encodes (s : Shape) (v : Json) (x : s.Carrier) : Prop :=
  v.everyLeaf Json.survives → Decodes (decode s) v x

abbrev FieldEncodes (f : Field) (v : Json) (a : f.Carrier) : Prop :=
  v.everyLeaf Json.survives → Decodes (fun mode d => readField f d fun s => decode s mode d) v a

theorem Decodes.leaf {α : Type} {decode : ReadMode → Draft → Decoded α} {v : Json} {x : α}
    (hleaf : v.isLeaf = true) (hrange : (v.draft none).fault? = none)
    (h : ∀ mode, decode mode (v.draft none) = .ok x) : Decodes decode v x := by
  have hdepth : v.depth = 0 := Json.depth_leaf hleaf
  refine ⟨(Json.everyLeaf_leaf hleaf).mpr hrange, fun room => ?_, h .buffered⟩
  rw [Json.draft_leaf hleaf _ none, h .direct, hdepth, within_of_le (Nat.zero_le room)]

theorem Decodes.draft_ne_null {s : Shape} {v : Json} {x : s.Carrier} (h : Decodes (decode s) v x)
    (room : Option Nat) : v.draft room ≠ .null := by
  intro hnull
  have hnone : v.draft none = .null := by
    cases v with
    | list items => simp [Json.draft] at hnull
    | object members => simp [Json.draft] at hnull
    | _ => exact hnull
  obtain ⟨e, he⟩ := decode_null s .buffered
  have hdecode := h.buffered
  rw [hnone, he] at hdecode
  cases hdecode

theorem readField_nullable {name : String} {s : Shape} {absent : Option (Option s.Carrier)}
    {d : Draft} (hd : d ≠ .null) (read : (s : Shape) → Decoded s.Carrier) :
    readField ⟨name, s, true, absent⟩ d read = read s >>= fun x => .ok (some x) := by
  unfold readField
  cases d with
  | null => exact absurd rfl hd
  | _ => rfl

theorem Encodes.field {name : String} {s : Shape} {absent : Option s.Carrier} {v : Json}
    {x : s.Carrier} (h : Encodes s v x) : FieldEncodes ⟨name, s, false, absent⟩ v x :=
  h

theorem FieldEncodes.null {name : String} {s : Shape} {absent : Option (Option s.Carrier)} :
    FieldEncodes ⟨name, s, true, absent⟩ .null none :=
  fun _ => Decodes.leaf rfl rfl fun _ => rfl

theorem Encodes.nullable {name : String} {s : Shape} {absent : Option (Option s.Carrier)} {v : Json}
    {x : s.Carrier} (h : Encodes s v x) : FieldEncodes ⟨name, s, true, absent⟩ v (some x) := by
  intro hleaves
  have hv := h hleaves
  refine ⟨hv.inRange, fun room => ?_, ?_⟩
  · rw [readField_nullable (hv.draft_ne_null _), hv.direct]
    exact within_map _ _ _ _
  · rw [readField_nullable (hv.draft_ne_null _), hv.buffered]
    rfl

theorem AsField.encodes {f : Field} {v : Json} {a : f.Carrier} (h : AsField Encodes f v a) :
    FieldEncodes f v a := by
  cases h with
  | null => exact FieldEncodes.null
  | known h => exact h.nullable
  | plain h => exact h.field

namespace Aligned

theorem keys_subset {P : (s : Shape) → Json → s.Carrier → Prop} {fs : List Field} {args : Args fs}
    {ms : List (String × Json)} (h : Aligned P fs args ms) :
    ms.map Prod.fst ⊆ fs.map Field.name := by
  induction h with
  | nil => exact List.Subset.refl _
  | present h rest ih => exact List.cons_subset_cons _ ih
  | absent h rest ih => exact List.subset_cons_of_subset _ ih

theorem first_member {f : Field} {ms : List (String × Json)} (h : f.name ∉ ms.map Prod.fst)
    (fs : List Field) (mode : ReadMode) (v : Json) (room : Option Nat) :
    decodeMembers (f :: fs) mode (Slots.empty (f :: fs))
      (Json.membersDraft room ((f.name, v) :: ms)) =
      (readField f (v.draft room) fun s => decode s mode (v.draft room)).bind fun a =>
        (decodeMembers fs mode (Slots.empty fs) (Json.membersDraft room ms)).map (some a, ·) := by
  rw [Json.membersDraft, decodeMembers_cons, Slots.empty, Slots.fill_cons, if_pos rfl]
  cases readField f (v.draft room) fun s => decode s mode (v.draft room) with
  | error e => rfl
  | ok a => exact decodeMembers_skip h fs mode (some a) (Slots.empty fs) room

theorem decoded {fs : List Field} {args : Args fs} {ms : List (String × Json)}
    (h : Aligned Encodes fs args ms) (hnodup : (fs.map Field.name).Nodup)
    (hleaves : ∀ m ∈ ms, m.2.everyLeaf Json.survives) :
    (∀ m ∈ ms, m.2.inRange) ∧ ∃ slots, Slots.finish fs slots = .ok args ∧
      (∀ room, decodeMembers fs .direct (Slots.empty fs) (Json.membersDraft (some room) ms) =
        within (Json.membersDepth ms) room slots) ∧
      decodeMembers fs .buffered (Slots.empty fs) (Json.membersDraft none ms) = .ok slots := by
  induction h with
  | nil =>
    refine ⟨by simp, (), rfl, fun room => ?_, ?_⟩
    · rw [Json.membersDraft, decodeMembers]
      rfl
    · rw [Json.membersDraft, decodeMembers]
  | @present f fs a args v ms h rest ih =>
    rw [List.map_cons, List.nodup_cons] at hnodup
    have hforeign : f.name ∉ ms.map Prod.fst := fun hmem => hnodup.1 (rest.keys_subset hmem)
    obtain ⟨hrange, slots, hfinish, hdirect, hbuffered⟩ :=
      ih hnodup.2 fun m hm => hleaves m (List.mem_cons_of_mem _ hm)
    have hv := h.encodes (hleaves _ List.mem_cons_self)
    refine ⟨List.forall_mem_cons.mpr ⟨hv.inRange, hrange⟩, (some a, slots), ?_, fun room => ?_, ?_⟩
    · simp only [Slots.finish, Option.some_or, hfinish]
      rfl
    · rw [first_member hforeign, hv.direct, Json.membersDepth]
      exact within_bind fun _ => by rw [hdirect, within_map]
    · rw [first_member hforeign, hv.buffered, Except.bind, hbuffered]
      rfl
  | @absent f fs a args ms h rest ih =>
    rw [List.map_cons, List.nodup_cons] at hnodup
    have hforeign : f.name ∉ ms.map Prod.fst := fun hmem => hnodup.1 (rest.keys_subset hmem)
    obtain ⟨hrange, slots, hfinish, hdirect, hbuffered⟩ := ih hnodup.2 hleaves
    refine ⟨hrange, (none, slots), ?_, fun room => ?_, ?_⟩
    · simp only [Slots.finish, Option.none_or, h, hfinish]
      rfl
    · rw [Slots.empty, decodeMembers_skip hforeign, hdirect, within_map]
    · rw [Slots.empty, decodeMembers_skip hforeign, hbuffered]
      rfl

end Aligned

theorem room_inside {room r : Nat} (h : room = r + 1) : (some room).map (· - 1) = some r := by
  rw [h]
  rfl

theorem Record.nodup_fields (r : Record) : (r.fields.map Field.name).Nodup := by
  cases r <;> decide

theorem encodes_record (r : Record) (args : Args r.fields) {ms : List (String × Json)}
    (h : Aligned Encodes r.fields args ms) : Encodes (.record r) (.object ms) (r.build args) := by
  intro hleaves
  obtain ⟨hrange, slots, hfinish, hdirect, hbuffered⟩ :=
    h.decoded r.nodup_fields (Json.everyLeaf_object.mp hleaves)
  refine ⟨Json.everyLeaf_object.mpr hrange, fun room => ?_, ?_⟩
  · rw [Json.draft, decode]
    refine checkDepth_bind fun k hk => ?_
    rw [room_inside hk, hdirect]
    refine within_bind_ok fun _ => ?_
    simp only [ObjectEnd.fault?, checkFault, hfinish]
    rfl
  · rw [Json.draft, decode]
    simp [hbuffered, hfinish, checkDepth, ObjectEnd.fault?, checkFault, bind, Except.bind, pure,
      Except.pure]

end Pseudocode
