import Pseudocode.Proofs.WrittenRecords

/-! Tagged values that are written with the tag in front. The tag is passed over
when the operands are looked for, and the operands when the tag is. -/

namespace Pseudocode

theorem chooseName_tag {α : Type} {all : List α} {tag : α → String} {a : α}
    (h : all.find? (tag · = tag a) = some a) : chooseName all tag (tag a) = .ok a := by
  rw [chooseName, h]

/-- Behind the tag, members only have to be read to their ends. -/
theorem findTag_behind {α : Type} {name : String} (dec : Draft → Decoded α) (a : α)
    {ms : List (String × Json)} (hforeign : name ∉ ms.map Prod.fst)
    (hrange : ∀ m ∈ ms, m.2.inRange) :
    (∀ room, findTag name dec .direct (some a) (Json.membersDraft (some room) ms) =
        within (Json.membersDepth ms) room (some a)) ∧
      findTag name dec .buffered (some a) (Json.membersDraft none ms) = .ok (some a) := by
  induction ms with
  | nil => exact ⟨fun room => rfl, rfl⟩
  | cons m ms ih =>
    obtain ⟨key, v⟩ := m
    simp only [List.map_cons, List.mem_cons, not_or] at hforeign
    obtain ⟨hdirect, hbuffered⟩ := ih hforeign.2 fun m hm => hrange m (List.mem_cons_of_mem _ hm)
    refine ⟨fun room => ?_, ?_⟩
    · have hbuffer : ReadMode.direct.buffer (v.draft (some room)) = within v.depth room () := by
        rw [ReadMode.buffer, Json.fault?_draft (hrange _ List.mem_cons_self), within,
          Json.roomFault]
        split <;> rfl
      have hrest := within_bind (a := v.depth) (x := ()) (f := fun _ =>
        findTag name dec .direct (some a) (Json.membersDraft (some room) ms)) fun _ => hdirect room
      rw [Json.membersDraft, findTag, Json.membersDepth, ← hrest, ← hbuffer]
      simp only [Quotation.read_closed, bind, Except.bind, if_neg (Ne.symm hforeign.1)]
    · rw [Json.membersDraft, findTag]
      simp only [Quotation.read_closed, bind, Except.bind, if_neg (Ne.symm hforeign.1),
        ReadMode.buffer]
      exact hbuffered

/-- The names that the members of a tagged value go by. -/
structure TagApart (name : String) (fs : List Field) : Prop where
  foreign : name ∉ fs.map Field.name
  nodup : (fs.map Field.name).Nodup

theorem membersDraft_room {ms : List (String × Json)} {r : Nat} (h : Json.membersDepth ms ≤ r) :
    Json.membersDraft (some r) ms = Json.membersDraft none ms := by
  rw [Json.membersDraft_eq, Json.membersDraft_eq]
  exact List.map_congr_left fun m hm => by rw [Json.draft_room (Json.membersDepth_le.mp h m hm)]

theorem requireTag_front {τ : Type} {name tag : String} {dec : ReadMode → Draft → Decoded τ} {t : τ}
    (htag : ∀ mode, dec mode (.string (.closed tag)) = .ok t) {ms : List (String × Json)}
    (hforeign : name ∉ ms.map Prod.fst) (hrange : ∀ m ∈ ms, m.2.inRange) :
    (∀ room, requireTag name (dec .direct) .direct
      (Json.membersDraft (some room) ((name, .string tag) :: ms)) .closed =
        within (Json.membersDepth ms) room t) ∧
      requireTag name (dec .buffered) .buffered
        (Json.membersDraft none ((name, .string tag) :: ms)) .closed =
        .ok t := by
  refine ⟨fun room => ?_, ?_⟩
  · obtain ⟨hdirect, -⟩ := findTag_behind (dec .direct) t hforeign hrange
    have hfound : findTag name (dec .direct) .direct none (Json.membersDraft (some room)
        ((name, .string tag) :: ms)) = within (Json.membersDepth ms) room (some t) := by
      rw [← hdirect room, Json.membersDraft, findTag, Json.draft]
      simp [htag, bind, Except.bind]
    rw [requireTag, hfound]
    exact within_bind_ok fun _ => rfl
  · obtain ⟨-, hbuffered⟩ := findTag_behind (dec .buffered) t hforeign hrange
    have hfound : findTag name (dec .buffered) .buffered none
        (Json.membersDraft none ((name, .string tag) :: ms)) = .ok (some t) := by
      rw [← hbuffered, Json.membersDraft, findTag, Json.draft]
      simp [htag, bind, Except.bind]
    rw [requireTag, hfound]
    rfl

theorem decodes_tagged {τ α : Type} {name tag : String} {fields : τ → List Field}
    {build : (t : τ) → Args (fields t) → α} (dec : ReadMode → Draft → Decoded τ)
    {decoder : ReadMode → Draft → Decoded α}
    (hdecoder : ∀ mode tooDeep members ending, decoder mode (.object tooDeep members ending) = do
      checkDepth tooDeep
      let t ← requireTag name (dec mode) mode members ending
      let slots ← decodeMembers (fields t) .buffered (Slots.empty (fields t)) members
      return build t (← Slots.finish (fields t) slots))
    {t : τ} (htag : ∀ mode, dec mode (.string (.closed tag)) = .ok t)
      (hapart : TagApart name (fields t))
    {args : Args (fields t)} {ms : List (String × Json)} (h : Aligned Encodes (fields t) args ms)
    (hleaves : (Json.object ((name, .string tag) :: ms)).everyLeaf Json.survives) :
    Decodes decoder (.object ((name, .string tag) :: ms)) (build t args) := by
  have hmembers := (List.forall_mem_cons.mp (Json.everyLeaf_object.mp hleaves)).2
  have hforeign : name ∉ ms.map Prod.fst := fun hmem => hapart.foreign (h.keys_subset hmem)
  obtain ⟨hrange, slots, hfinish, -, hslots⟩ := h.decoded hapart.nodup hmembers
  obtain ⟨hdirect, hbuffered⟩ := requireTag_front htag hforeign hrange
  have hskip : decodeMembers (fields t) .buffered (Slots.empty (fields t))
      (Json.membersDraft none ((name, .string tag) :: ms)) = .ok slots := by
    rw [Json.membersDraft, decodeMembers_foreign hapart.foreign, hslots]
  have hrangeTag : (Json.string tag).inRange := (Json.everyLeaf_leaf rfl).mpr rfl
  refine ⟨Json.everyLeaf_object.mpr (List.forall_mem_cons.mpr ⟨hrangeTag, hrange⟩),
    fun room => ?_, ?_⟩
  · have hdepth : Json.membersDepth ((name, .string tag) :: ms) = Json.membersDepth ms := by
      simp [Json.membersDepth, Json.depth]
    rw [Json.draft, hdecoder, Json.depth, hdepth]
    refine checkDepth_bind fun r hr => ?_
    rw [room_inside hr, hdirect]
    refine within_bind_ok fun hle => ?_
    rw [membersDraft_room (hdepth ▸ hle), hskip]
    simp only [hfinish, bind, Except.bind, pure, Except.pure]
  · rw [Json.draft, hdecoder, Option.map_none, hbuffered]
    simp only [hskip, hfinish, checkDepth, bind, Except.bind, pure, Except.pure]
    rfl

theorem decodeTag_closed {α : Type} {all : List α} {tag : α → String} {a : α}
    (h : all.find? (tag · = tag a) = some a) (mode : ReadMode) :
    decodeTag all tag mode (.string (.closed (tag a))) = .ok a := by
  cases mode <;> exact chooseName_tag h

theorem decodeName_closed {α : Type} {all : List α} {tag : α → String} {a : α}
    (h : all.find? (tag · = tag a) = some a) (mode : ReadMode) :
    decodeName all tag mode (.string (.closed (tag a))) = .ok a := by
  cases mode <;> exact chooseName_tag h

theorem KindTag.find_tag (t : KindTag) : KindTag.all.find? (KindTag.tag · = t.tag) = some t := by
  cases t with
  | basic type => cases type <;> rfl
  | object link => cases link <;> rfl
  | class_ link => cases link <;> rfl
  | enumeration storage => cases storage <;> rfl
  | delegate sort => cases sort <;> rfl
  | _ => rfl

theorem StructTag.find_tag (t : StructTag) :
    StructTag.all.find? (StructTag.tag · = t.tag) = some t := by
  cases t <;> rfl

theorem ValueTag.find_tag (t : ValueTag) :
    ValueTag.all.find? (ValueTag.tag · = t.tag) = some t := by
  cases t with
  | text sort => cases sort <;> rfl
  | _ => rfl

theorem Opcode.find_tag (op : Opcode) : Opcode.all.find? (Opcode.tag · = op.tag) = some op := by
  cases op <;> rfl

theorem KindTag.apart (t : KindTag) : TagApart "type" t.fields := by
  cases t <;> exact ⟨by simp, by simp⟩

theorem StructTag.apart (t : StructTag) : TagApart "struct" t.fields := by
  cases t <;> exact ⟨by decide, by decide⟩

theorem Opcode.apart (op : Opcode) :
    TagApart "inst" op.fields ∧ "statement_index" ∉ op.fields.map Field.name := by
  cases op <;> exact ⟨⟨by decide, by decide⟩, by decide⟩

theorem encodes_kind {t : KindTag} {args : Args t.fields} {ms : List (String × Json)}
    (h : Aligned Encodes t.fields args ms) :
    Encodes .propertyKind (.object (("type", .string t.tag) :: ms)) (t.build args) :=
  decodes_tagged (decodeTag KindTag.all KindTag.tag) (fun _ _ _ _ => by rw [decode])
    (decodeTag_closed t.find_tag) t.apart h

theorem encodes_struct {t : StructTag} {args : Args t.fields} {ms : List (String × Json)}
    (h : Aligned Encodes t.fields args ms) :
    Encodes .structValue (.object (("struct", .string t.tag) :: ms)) (t.build args) :=
  decodes_tagged (decodeTag StructTag.all StructTag.tag) (fun _ _ _ _ => by rw [decode])
    (decodeTag_closed t.find_tag) t.apart h

theorem decodeTagged_type (mode : ReadMode) (ending : ObjectEnd) (d : Draft)
    (rest : List (Quotation × Draft)) :
    decodeTagged mode ending none ((.closed "type", d) :: rest) =
      (decodeName ValueTag.all ValueTag.tag mode d).bind fun t =>
        decodeTagged mode ending (some t) rest := by
  rw [decodeTagged]
  rfl

theorem decodeTagged_value (mode : ReadMode) (ending : ObjectEnd) (t : ValueTag) (d : Draft)
    (rest : List (Quotation × Draft)) :
    decodeTagged mode ending (some t) ((.closed "value", d) :: rest) =
      (readField t.field d fun s => decode s mode d).bind fun a =>
        (checkRest mode rest).bind fun _ => (checkFault ending.fault?).map fun _ => t.build a := by
  rw [decodeTagged]
  simp only [Quotation.read_closed, bind, Except.bind, pure, Except.pure, Except.map]
  rfl

theorem decodeTagged_front (t : ValueTag) (v : Json) (mode : ReadMode) (room : Option Nat) :
    decodeTagged mode .closed none
      (Json.membersDraft room [("type", .string t.tag), ("value", v)]) =
      (readField t.field (v.draft room) fun s => decode s mode (v.draft room)).map t.build := by
  have hname : decodeName ValueTag.all ValueTag.tag mode (.string (.closed t.tag)) = .ok t :=
    decodeName_closed t.find_tag mode
  rw [Json.membersDraft, Json.membersDraft, Json.membersDraft, Json.draft, decodeTagged_type, hname,
    Except.bind, decodeTagged_value]
  cases readField t.field (v.draft room) fun s => decode s mode (v.draft room) <;> rfl

theorem encodes_value {t : ValueTag} {v : Json} {a : t.field.Carrier}
    (h : AsField Encodes t.field v a) :
    Encodes .propertyValue (.object [("type", .string t.tag), ("value", v)]) (t.build a) := by
  intro hleaves
  have hv := h.encodes (Json.everyLeaf_object.mp hleaves ("value", v) (by simp))
  have hrangeTag : (Json.string t.tag).inRange := (Json.everyLeaf_leaf rfl).mpr rfl
  refine ⟨Json.everyLeaf_object.mpr (List.forall_mem_cons.mpr
    ⟨hrangeTag, List.forall_mem_singleton.mpr hv.inRange⟩), fun room => ?_, ?_⟩
  · have hdepth : Json.membersDepth [("type", .string t.tag), ("value", v)] = v.depth := by
      simp [Json.membersDepth, Json.depth]
    rw [Json.draft, decode, Json.depth, hdepth]
    refine checkDepth_bind fun r hr => ?_
    rw [room_inside hr, decodeTagged_front, hv.direct, within_map]
  · rw [Json.draft, decode, Option.map_none, decodeTagged_front, hv.buffered]
    rfl

theorem IntWidth.range_of_ofInt? {w : IntWidth} {i : Int} {x : w.Carrier}
    (h : w.ofInt? i = some x) : w.least ≤ i ∧ i ≤ w.greatest := by
  by_contra hnot
  simp only [IntWidth.ofInt?, Bool.and_eq_true, decide_eq_true_eq, if_neg hnot] at h
  cases h

theorem isWord_of_ofInt? {w : IntWidth} {i : Int} {x : w.Carrier} (h : w.ofInt? i = some x) :
    isWord i := by
  have hrange := IntWidth.range_of_ofInt? h
  have hleast : -2 ^ 63 ≤ w.least := by cases w <;> decide
  have hgreatest : w.greatest < 2 ^ 64 := by cases w <;> decide
  exact ⟨hleast.trans hrange.1, hrange.2.trans_lt hgreatest⟩

theorem encodes_int {w : IntWidth} {i : Int} {x : w.Carrier} (h : w.ofInt? i = some x) :
    Encodes (.int w) (.int i) x := by
  intro _
  have hdraft : (Json.int i).draft none = .number (.int i) := numeralDraft_int (isWord_of_ofInt? h)
  refine Decodes.leaf rfl ?_ fun mode => ?_
  · rw [hdraft]
    rfl
  · rw [hdraft, decode, decodeInt]
    simp only [h]

/-- A member in front of the tag is no concern of one who looks for the tag in a
value that is read to its end. -/
theorem requireTag_foreign {τ : Type} {name key : String} (h : key ≠ name) (dec : Draft → Decoded τ)
    (d : Draft) (rest : List (Quotation × Draft)) (ending : ObjectEnd) :
    requireTag name dec .buffered ((.closed key, d) :: rest) ending =
      requireTag name dec .buffered rest ending := by
  rw [requireTag, requireTag, findTag]
  simp only [Quotation.read_closed, bind, Except.bind, if_neg h, ReadMode.buffer]

theorem encodes_expr {op : Opcode} {args : Args op.fields} {ms : List (String × Json)}
    (h : Aligned Encodes op.fields args ms) (i : UInt32) :
    Encodes .expr (.object (("statement_index", .int i.toNat) :: ("inst", .string op.tag) :: ms))
      ⟨i, op.build args⟩ := by
  intro hleaves
  obtain ⟨hapart, hforeignIndex⟩ := op.apart
  have hmembers := Json.everyLeaf_object.mp hleaves
  obtain ⟨hrange, slots, hfinish, -, hslots⟩ :=
    h.decoded hapart.nodup fun m hm =>
      hmembers m (List.mem_cons_of_mem _ (List.mem_cons_of_mem _ hm))
  have hindex := encodes_int (ofInt?_u32 i) (hmembers _ List.mem_cons_self)
  have hrangeTag : (Json.string op.tag).inRange := (Json.everyLeaf_leaf rfl).mpr rfl
  have hrangeRest : ∀ m ∈ ("inst", Json.string op.tag) :: ms, m.2.inRange :=
    List.forall_mem_cons.mpr ⟨hrangeTag, hrange⟩
  have hforeign : "statement_index" ∉ (("inst", Json.string op.tag) :: ms).map Prod.fst := by
    simpa using fun hmem => hforeignIndex (h.keys_subset hmem)
  obtain ⟨hdirect, hbuffered⟩ := findTag_behind (decodeInt .u32) i hforeign hrangeRest
  have hfront (mode : ReadMode) (room : Option Nat) :
      findTag "statement_index" (decodeInt .u32) mode none (Json.membersDraft room
        (("statement_index", .int i.toNat) :: ("inst", .string op.tag) :: ms)) =
        findTag "statement_index" (decodeInt .u32) mode (some i)
        (Json.membersDraft room (("inst", .string op.tag) :: ms)) := by
    have hdecode : decodeInt .u32 ((Json.int i.toNat).draft room) = .ok i := by
      have hread := hindex.buffered
      rwa [decode, Json.draft_leaf rfl none room] at hread
    rw [Json.membersDraft, findTag]
    simp only [Quotation.read_closed, bind, Except.bind, if_true, hdecode]
  have htag := (requireTag_front (decodeTag_closed op.find_tag) (fun hmem =>
    hapart.foreign (h.keys_subset hmem)) hrange).2
  have hrequire : requireTag "inst" (decodeTag Opcode.all Opcode.tag .buffered) .buffered
      (Json.membersDraft none (("statement_index", .int i.toNat) :: ("inst", .string op.tag) :: ms))
      .closed = .ok op := by
    rw [Json.membersDraft, requireTag_foreign (by decide), htag]
  have hskip : decodeMembers op.fields .buffered (Slots.empty op.fields) (Json.membersDraft none
      (("statement_index", .int i.toNat) :: ("inst", .string op.tag) :: ms)) = .ok slots := by
    rw [Json.membersDraft, decodeMembers_foreign hforeignIndex, Json.membersDraft,
      decodeMembers_foreign hapart.foreign, hslots]
  refine ⟨Json.everyLeaf_object.mpr (List.forall_mem_cons.mpr ⟨hindex.inRange, hrangeRest⟩),
    fun room => ?_, ?_⟩
  · have hdepth :
        Json.membersDepth (("statement_index", .int i.toNat) :: ("inst", .string op.tag) :: ms) =
        Json.membersDepth (("inst", .string op.tag) :: ms) := by
      simp [Json.membersDepth, Json.depth]
    rw [Json.draft, decode, Json.depth, hdepth]
    refine checkDepth_bind fun r hr => ?_
    rw [room_inside hr, hfront, hdirect]
    refine within_bind_ok fun hle => ?_
    rw [membersDraft_room (hdepth ▸ hle)]
    simp only [ObjectEnd.fault?, checkFault, hrequire, hskip, hfinish, bind, Except.bind, pure,
      Except.pure]
    rfl
  · rw [Json.draft, decode, Option.map_none, hfront, hbuffered]
    simp only [ObjectEnd.fault?, checkFault, hrequire, hskip, hfinish, checkDepth, bind,
      Except.bind, pure, Except.pure]
    rfl

end Pseudocode
