import Pseudocode.Proofs.Decoding

/-! What is decoded as its text is read has no fault: every part of it is either
decoded or read to its end. So a stored value that is decoded is not too deep, and
its numbers are in range. -/

namespace Pseudocode

namespace Json

theorem itemsFault?_eq_none {room : Option Nat} {items : List Json} :
    itemsFault? (itemsDraft room items) = none ↔ ∀ v ∈ items, (v.draft room).fault? = none := by
  induction items with
  | nil => simp [itemsDraft, itemsFault?]
  | cons v items ih => rw [itemsDraft, itemsFault?, Option.or_eq_none_iff, ih, List.forall_mem_cons]

theorem membersFault?_eq_none {room : Option Nat} {ms : List (String × Json)} :
    membersFault? (membersDraft room ms) = none ↔ ∀ m ∈ ms, (m.2.draft room).fault? = none := by
  induction ms with
  | nil => simp [membersDraft, membersFault?]
  | cons m ms ih =>
    rw [membersDraft, membersFault?, Option.or_eq_none_iff, Option.or_eq_none_iff, ih,
      List.forall_mem_cons]
    simp [Quotation.fault?]

theorem fault?_list {room : Option Nat} {items : List Json} :
    ((list items).draft room).fault? = none ↔
      room ≠ some 0 ∧ ∀ v ∈ items, (v.draft (room.map (· - 1))).fault? = none := by
  rw [draft, Draft.fault?, ← itemsFault?_eq_none]
  by_cases hroom : room = some 0
  · simp [hroom]
  · simp [hroom, ListEnd.fault?]

theorem fault?_object {room : Option Nat} {ms : List (String × Json)} :
    ((object ms).draft room).fault? = none ↔
      room ≠ some 0 ∧ ∀ m ∈ ms, (m.2.draft (room.map (· - 1))).fault? = none := by
  rw [draft, Draft.fault?, ← membersFault?_eq_none]
  by_cases hroom : room = some 0
  · simp [hroom]
  · simp [hroom, ObjectEnd.fault?]

theorem inRange_of_fault? {v : Json} {room : Option Nat} (h : (v.draft room).fault? = none) :
    v.inRange := by
  induction v using Json.induction generalizing room with
  | leaf v hleaf =>
    rw [draft_leaf hleaf room none] at h
    exact (everyLeaf_leaf hleaf).mpr h
  | list items ih => exact everyLeaf_list.mpr fun v hv => ih v hv ((fault?_list.mp h).2 v hv)
  | object ms ih => exact everyLeaf_object.mpr fun m hm => ih m hm ((fault?_object.mp h).2 m hm)

theorem depth_le_of_fault? {v : Json} {r : Nat} (h : (v.draft (some r)).fault? = none) :
    v.depth ≤ r := by
  by_contra hdeep
  rw [fault?_draft (inRange_of_fault? h), roomFault, if_neg hdeep] at h
  cases h

end Json

/-- A member fills the slot of the first field of its name, which must be empty. -/
theorem Slots.fill_cases {name : String} {read : (f : Field) → Decoded f.Carrier} {f : Field}
    {fs : List Field} {slot : Option f.Carrier} {slots : Slots fs} {filled : Slots (f :: fs)}
    (h : fill name read (f :: fs) (slot, slots) = .ok (some filled)) :
    (f.name = name ∧ slot = none ∧ ∃ a, read f = .ok a ∧ filled = (some a, slots)) ∨
      (f.name ≠ name ∧ ∃ slots', fill name read fs slots = .ok (some slots') ∧
        filled = (slot, slots')) := by
  rw [fill_cons] at h
  by_cases hname : f.name = name
  · rw [if_pos hname] at h
    cases slot with
    | some a => cases h
    | none =>
      obtain ⟨a, ha, hsome⟩ := ok_of_bind h
      cases hsome
      exact .inl ⟨hname, rfl, a, ha, rfl⟩
  · rw [if_neg hname] at h
    obtain ⟨found, hfound, hmap⟩ := ok_of_bind h
    cases found with
    | none => cases hmap
    | some slots' =>
      cases hmap
      exact .inr ⟨hname, slots', hfound, rfl⟩

theorem Slots.fill_some {name : String} {read : (f : Field) → Decoded f.Carrier} {fs : List Field}
    {slots slots' : Slots fs} (h : fill name read fs slots = .ok (some slots')) :
    ∃ f ∈ fs, f.name = name ∧ ∃ a, read f = .ok a := by
  induction fs with
  | nil => cases h
  | cons f fs ih =>
    obtain ⟨slot, slots⟩ := slots
    obtain ⟨hname, -, a, ha, -⟩ | ⟨-, slots'', hfill, -⟩ := fill_cases h
    · exact ⟨f, List.mem_cons_self, hname, a, ha⟩
    · obtain ⟨g, hg, hfound⟩ := ih hfill
      exact ⟨g, List.mem_cons_of_mem f hg, hfound⟩

theorem Slots.fill_known {name : String} {fs : List Field} (hname : name ∈ fs.map Field.name)
    {read : (f : Field) → Decoded f.Carrier} {slots : Slots fs} {filled : Option (Slots fs)}
    (h : fill name read fs slots = .ok filled) : ∃ slots', filled = some slots' := by
  induction fs with
  | nil => cases hname
  | cons f fs ih =>
    obtain ⟨slot, slots⟩ := slots
    rw [fill_cons] at h
    by_cases heq : f.name = name
    · rw [if_pos heq] at h
      cases slot with
      | some a => cases h
      | none =>
        obtain ⟨a, -, hsome⟩ := ok_of_bind h
        exact ⟨_, (Except.ok.inj hsome).symm⟩
    · rw [if_neg heq] at h
      obtain ⟨filled', hfilled, hmap⟩ := ok_of_bind h
      have htail : name ∈ fs.map Field.name := (List.mem_cons.mp hname).resolve_left (Ne.symm heq)
      obtain ⟨slots', rfl⟩ := ih htail hfilled
      exact ⟨_, (Except.ok.inj hmap).symm⟩

theorem decodeMembers_known {fs : List Field} {mode : ReadMode} {slots slots' : Slots fs}
    {key : String} {d : Draft} {rest : List (Quotation × Draft)} (hkey : key ∈ fs.map Field.name)
    (h : decodeMembers fs mode slots ((.closed key, d) :: rest) = .ok slots') :
    ∃ slots'', Slots.fill key (fun f => readField f d fun s => decode s mode d) fs slots =
      .ok (some slots'') ∧
      decodeMembers fs mode slots'' rest = .ok slots' := by
  rw [decodeMembers_cons] at h
  obtain ⟨filled, hfilled, hrest⟩ := ok_of_bind h
  obtain ⟨slots'', rfl⟩ := Slots.fill_known hkey hfilled
  exact ⟨slots'', hfilled, hrest⟩

theorem Aligned.field {P : (s : Shape) → Json → s.Carrier → Prop} {fs : List Field} {args : Args fs}
    {ms : List (String × Json)} (h : Aligned P fs args ms) (hnodup : (fs.map Field.name).Nodup) :
    ∀ m ∈ ms, m.1 ∈ fs.map Field.name ∧ ∀ f ∈ fs, f.name = m.1 → ∃ a, AsField P f m.2 a := by
  induction h with
  | nil => simp
  | @present f fs a args v ms h rest ih =>
    rw [List.map_cons, List.nodup_cons] at hnodup
    refine List.forall_mem_cons.mpr
      ⟨⟨List.mem_cons_self, List.forall_mem_cons.mpr ⟨fun _ => ⟨a, h⟩, ?_⟩⟩, ?_⟩
    · intro g hg hname
      exact absurd (List.mem_map.mpr ⟨g, hg, hname⟩) hnodup.1
    · intro m hm
      obtain ⟨hmem, hfield⟩ := ih hnodup.2 m hm
      refine ⟨List.mem_cons_of_mem _ hmem, List.forall_mem_cons.mpr ⟨fun hname => ?_, hfield⟩⟩
      exact absurd (hname ▸ hmem) hnodup.1
  | @absent f fs a args ms h rest ih =>
    rw [List.map_cons, List.nodup_cons] at hnodup
    intro m hm
    obtain ⟨hmem, hfield⟩ := ih hnodup.2 m hm
    refine ⟨List.mem_cons_of_mem _ hmem, List.forall_mem_cons.mpr ⟨fun hname => ?_, hfield⟩⟩
    exact absurd (hname ▸ hmem) hnodup.1

/-- Whether a value has no fault if anything is decoded from it as it is read. -/
def Faultless (s : Shape) (v : Json) (_ : s.Carrier) : Prop :=
  ∀ room y, decode s .direct (v.draft room) = .ok y → (v.draft room).fault? = none

theorem AsField.faultless {f : Field} {v : Json} {a : f.Carrier} (h : AsField Faultless f v a)
    {room : Option Nat} {b : f.Carrier}
    (hread : (readField f (v.draft room) fun s => decode s .direct (v.draft room)) = .ok b) :
    (v.draft room).fault? = none := by
  cases h with
  | null => rfl
  | plain h => exact h room b hread
  | known h =>
    by_cases hnull : v.draft room = .null
    · rw [hnull]
      rfl
    · rw [readField_nullable hnull] at hread
      obtain ⟨y, hy, -⟩ := ok_of_bind hread
      exact h room y hy

theorem Aligned.faultless {fs : List Field} {args : Args fs} {ms : List (String × Json)}
    (h : Aligned Faultless fs args ms) (hnodup : (fs.map Field.name).Nodup) {room : Option Nat}
    {slots slots' : Slots fs}
    (hdecode : decodeMembers fs .direct slots (Json.membersDraft room ms) = .ok slots') :
    ∀ m ∈ ms, (m.2.draft room).fault? = none := by
  have hfields := h.field hnodup
  clear h
  induction ms generalizing slots with
  | nil => simp
  | cons m ms ih =>
    obtain ⟨⟨hkey, hfield⟩, hrest⟩ := List.forall_mem_cons.mp hfields
    obtain ⟨slots'', hfill, hmembers⟩ := decodeMembers_known hkey hdecode
    obtain ⟨f, hf, hname, b, hread⟩ := Slots.fill_some hfill
    obtain ⟨a, ha⟩ := hfield f hf hname
    exact List.forall_mem_cons.mpr ⟨ha.faultless hread, ih hmembers hrest⟩

theorem faultless_record (r : Record) (args : Args r.fields) {ms : List (String × Json)}
    (h : Aligned Faultless r.fields args ms) :
    Faultless (.record r) (.object ms) (r.build args) := by
  intro room y hdecode
  obtain ⟨hroom, slots, _, hslots, -⟩ := decode_record_ok hdecode
  exact Json.fault?_object.mpr ⟨hroom, h.faultless r.nodup_fields hslots⟩

theorem ok_of_buffer {d : Draft} {x : Unit} (h : ReadMode.direct.buffer d = .ok x) :
    d.fault? = none := by
  rw [ReadMode.buffer] at h
  cases hd : d.fault? with
  | none => rfl
  | some f =>
    rw [hd] at h
    cases h

/-- Beside a tag, everything is read to its end. -/
theorem findTag_faultless {α : Type} {name : String} {dec : Draft → Decoded α} {room : Option Nat}
    {ms : List (String × Json)} (htag : ∀ m ∈ ms, m.1 = name → (m.2.draft room).fault? = none)
    {found found' : Option α}
    (h : findTag name dec .direct found (Json.membersDraft room ms) = .ok found') :
    ∀ m ∈ ms, (m.2.draft room).fault? = none := by
  induction ms generalizing found with
  | nil => simp
  | cons m ms ih =>
    obtain ⟨key, v⟩ := m
    obtain ⟨hhead, htail⟩ := List.forall_mem_cons.mp htag
    rw [Json.membersDraft] at h
    by_cases hkey : key = name
    · subst hkey
      rw [findTag_self] at h
      cases found with
      | some t => cases h
      | none =>
        obtain ⟨t, -, hrest⟩ := ok_of_bind h
        exact List.forall_mem_cons.mpr ⟨hhead rfl, ih htail hrest⟩
    · rw [findTag_ne hkey] at h
      obtain ⟨_, hbuffer, hrest⟩ := ok_of_bind h
      exact List.forall_mem_cons.mpr ⟨ok_of_buffer hbuffer, ih htail hrest⟩

theorem tagged_faultless {τ α : Type} {name tag : String}
    {P : (s : Shape) → Json → s.Carrier → Prop} {fs : List Field} {args : Args fs}
    {ms : List (String × Json)} (h : Aligned P fs args ms) (hapart : TagApart name fs)
    {dec : Draft → Decoded τ} {build : τ → Decoded α} {room : Option Nat} {y : α}
    (hdecode : (checkDepth (room = some 0) >>= fun _ =>
      requireTag name dec .direct (Json.membersDraft (room.map (· - 1)) ((name, .string tag) :: ms))
        .closed >>= build) = .ok y) :
    ((Json.object ((name, .string tag) :: ms)).draft room).fault? = none := by
  obtain ⟨hroom, hdecode⟩ := ok_of_checkDepth hdecode
  obtain ⟨_, htag, -⟩ := ok_of_bind hdecode
  obtain ⟨_, hfind, -⟩ := ok_of_bind htag
  refine Json.fault?_object.mpr ⟨hroom, findTag_faultless ?_ hfind⟩
  refine List.forall_mem_cons.mpr ⟨fun _ => rfl, fun m hm hname => ?_⟩
  exact absurd (h.keys_subset (List.mem_map_of_mem hm)) (hname ▸ hapart.foreign)

theorem faultless_kind (t : KindTag) (args : Args t.fields) {ms : List (String × Json)}
    (h : Aligned Faultless t.fields args ms) :
    Faultless .propertyKind (.object (("type", .string t.tag) :: ms)) (t.build args) := by
  intro room y hdecode
  rw [Json.draft, decode] at hdecode
  exact tagged_faultless h t.apart hdecode

theorem faultless_struct (t : StructTag) (args : Args t.fields) {ms : List (String × Json)}
    (h : Aligned Faultless t.fields args ms) :
    Faultless .structValue (.object (("struct", .string t.tag) :: ms)) (t.build args) := by
  intro room y hdecode
  rw [Json.draft, decode] at hdecode
  exact tagged_faultless h t.apart hdecode

theorem faultless_value (t : ValueTag) {v : Json} {a : t.field.Carrier}
    (h : AsField Faultless t.field v a) :
    Faultless .propertyValue (.object [("type", .string t.tag), ("value", v)]) (t.build a) := by
  intro room y hdecode
  obtain ⟨hroom, b, hread, -⟩ := decode_value_ok hdecode
  exact Json.fault?_object.mpr
    ⟨hroom, List.forall_mem_cons.mpr ⟨rfl, List.forall_mem_singleton.mpr (h.faultless hread)⟩⟩

theorem fault?_int {w : IntWidth} {i : Int} {x : w.Carrier} (h : w.ofInt? i = some x)
    (room : Option Nat) : ((Json.int i).draft room).fault? = none := by
  rw [Json.draft, numeralDraft_int (isWord_of_ofInt? h)]
  rfl

theorem faultless_expr (op : Opcode) (args : Args op.fields) {ms : List (String × Json)}
    (i : UInt32) (h : Aligned Faultless op.fields args ms) :
    Faultless .expr (.object (("statement_index", .int i.toNat) :: ("inst", .string op.tag) :: ms))
      ⟨i, op.build args⟩ := by
  intro room y hdecode
  rw [Json.draft, decode] at hdecode
  obtain ⟨hroom, hdecode⟩ := ok_of_checkDepth hdecode
  obtain ⟨_, hfind, -⟩ := ok_of_bind hdecode
  refine Json.fault?_object.mpr ⟨hroom, findTag_faultless ?_ hfind⟩
  refine List.forall_mem_cons.mpr ⟨fun _ => fault?_int (ofInt?_u32 i) _, List.forall_mem_cons.mpr
    ⟨fun hname => absurd hname (by simp), fun m hm hname => ?_⟩⟩
  exact absurd (h.keys_subset (List.mem_map_of_mem hm)) (hname ▸ op.apart.2)

theorem items_faultless {s : Shape} {vs : List Json} {xs : List s.Carrier}
    (h : List.Forall₂ (Faultless s) vs xs) {room : Option Nat} {ys : List s.Carrier}
    (hdecode : decodeItems s .direct (Json.itemsDraft room vs) = .ok ys) :
    ∀ v ∈ vs, (v.draft room).fault? = none := by
  induction h generalizing ys with
  | nil => simp
  | cons hv rest ih =>
    rw [Json.itemsDraft, decodeItems] at hdecode
    obtain ⟨y, hy, hrest⟩ := ok_of_bind hdecode
    obtain ⟨ys', hys, -⟩ := ok_of_bind hrest
    exact List.forall_mem_cons.mpr ⟨hv room y hy, ih hys⟩

theorem faultless_list {s : Shape} {vs : List Json} {xs : List s.Carrier}
    (h : List.Forall₂ (Faultless s) vs xs) : Faultless (.list s) (.list vs) xs := by
  intro room y hdecode
  obtain ⟨hroom, hitems⟩ := decode_list_ok hdecode
  exact Json.fault?_list.mpr ⟨hroom, items_faultless h hitems⟩

theorem faultless_pair {s t : Shape} {v w : Json} {x : s.Carrier} {y : t.Carrier}
    (hv : Faultless s v x) (hw : Faultless t w y) :
    Faultless (.pair s t) (.list [v, w]) (x, y) := by
  intro room z hdecode
  obtain ⟨hroom, ha, hb⟩ := decode_pair_ok hdecode
  exact Json.fault?_list.mpr
    ⟨hroom, List.forall_mem_cons.mpr ⟨hv _ _ ha, List.forall_mem_singleton.mpr (hw _ _ hb)⟩⟩

theorem faultless_narrow (x : Binary32) : Faultless .narrow (.narrow x) x := by
  intro room y hdecode
  refine Json.fault?_real rfl fun hrange => ?_
  rw [decode, hrange] at hdecode
  cases hdecode

theorem faultless_wide (x : Binary64) : Faultless .wide (.wide x) x := by
  intro room y hdecode
  refine Json.fault?_real rfl fun hrange => ?_
  rw [decode, hrange] at hdecode
  cases hdecode

theorem Written.faultless {s : Shape} {v : Json} {x : s.Carrier} (h : Written s v x) :
    Faultless s v x :=
  Written.induction (P := Faultless) (fun h room _ _ =>
    fault?_int h room) faultless_narrow faultless_wide (fun _ _ _ _ => rfl) (fun _ _ _ _ =>
    rfl) (fun _ _ _ _ => rfl) (fun _ _ _ _ => rfl) faultless_list faultless_pair faultless_record
    faultless_kind faultless_struct faultless_value faultless_expr h

end Pseudocode
