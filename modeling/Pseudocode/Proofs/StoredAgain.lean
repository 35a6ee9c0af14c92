import Pseudocode.Proofs.DecodedNumbers
import Pseudocode.Proofs.RoundTrip

/-! Storing what was read. A dump that a text holds is read back from the text
that it is stored as if, and only if, each of its numbers is, and no more lists
and objects are open in it than may be. -/

namespace Pseudocode

/-- Whether there is room for a value and its numbers are read back. -/
structure Json.Storable (room : Option Nat) (v : Json) : Prop where
  depth : ∀ r, room = some r → v.depth ≤ r
  numbers : v.everyLeaf Json.survives

namespace Json

theorem storable_leaf {v : Json} (hleaf : v.isLeaf = true) (h : v.survives) (room : Option Nat) :
    v.Storable room :=
  ⟨fun r _ => by simp [depth_leaf hleaf], (everyLeaf_leaf hleaf).mpr h⟩

theorem storable_string (s : String) (room : Option Nat) : (string s).Storable room :=
  storable_leaf (v := string s) rfl trivial room

theorem room_of_inside {room : Option Nat} (hroom : room ≠ some 0) {depth : Nat}
    (h : ∀ r, room.map (· - 1) = some r → depth ≤ r) : ∀ r, room = some r → depth + 1 ≤ r := by
  rintro r rfl
  have hpos : r ≠ 0 := fun hr => hroom (congrArg some hr)
  have hle := h (r - 1) rfl
  omega

theorem storable_list {items : List Json} {room : Option Nat} (hroom : room ≠ some 0)
    (h : ∀ v ∈ items, v.Storable (room.map (· - 1))) : (list items).Storable room where
  depth := room_of_inside hroom fun r hr => itemsDepth_le.mpr fun v hv => (h v hv).depth r hr
  numbers := everyLeaf_list.mpr fun v hv => (h v hv).numbers

theorem storable_object {members : List (String × Json)} {room : Option Nat} (hroom : room ≠ some 0)
    (h : ∀ m ∈ members, m.2.Storable (room.map (· - 1))) : (object members).Storable room where
  depth := room_of_inside hroom fun r hr => membersDepth_le.mpr fun m hm => (h m hm).depth r hr
  numbers := everyLeaf_object.mpr fun m hm => (h m hm).numbers

end Json

/-- Whether a value that is decoded as `x` must be storable for that. -/
def NeedsStorable (s : Shape) (v : Json) (x : s.Carrier) : Prop :=
  ∀ mode room, decode s mode (v.draft room) = .ok x → v.Storable room

theorem AsField.storable {f : Field} {v : Json} {a : f.Carrier} (h : AsField NeedsStorable f v a)
    {mode : ReadMode} {room : Option Nat}
    (hread : (readField f (v.draft room) fun s => decode s mode (v.draft room)) = .ok a) :
    v.Storable room := by
  cases h with
  | null => exact Json.storable_leaf (v := .null) rfl trivial room
  | plain h => exact h mode room hread
  | @known name s absent v x h =>
    have hnull : v.draft room ≠ .null := by
      intro hnull
      rw [hnull] at hread
      cases hread
    rw [readField_nullable hnull] at hread
    obtain ⟨y, hy, hsome⟩ := ok_of_bind hread
    cases hsome
    exact h mode room hy

theorem Aligned.storable {fs : List Field} {args : Args fs} {ms : List (String × Json)}
    (h : Aligned NeedsStorable fs args ms) (hnodup : (fs.map Field.name).Nodup) {mode : ReadMode}
    {room : Option Nat} {slots : Slots fs}
    (hslots : decodeMembers fs mode (Slots.empty fs) (Json.membersDraft room ms) = .ok slots)
    (hfinish : Slots.finish fs slots = .ok args) : ∀ m ∈ ms, m.2.Storable room := by
  induction h with
  | nil => simp
  | @present f fs a args v ms h rest ih =>
    rw [List.map_cons, List.nodup_cons] at hnodup
    rw [first_member fun hmem => hnodup.1 (rest.keys_subset hmem)] at hslots
    obtain ⟨b, hread, hrest⟩ := ok_of_bind hslots
    obtain ⟨slots', hdecode, rfl⟩ := ok_of_map hrest
    obtain ⟨args', hargs, hcons⟩ := ok_of_bind hfinish
    cases hcons
    exact List.forall_mem_cons.mpr ⟨h.storable hread, ih hnodup.2 hdecode hargs⟩
  | @absent f fs a args ms h rest ih =>
    rw [List.map_cons, List.nodup_cons] at hnodup
    rw [Slots.empty, decodeMembers_skip fun hmem => hnodup.1 (rest.keys_subset hmem)] at hslots
    obtain ⟨slots', hdecode, rfl⟩ := ok_of_map hslots
    simp only [Slots.finish, Option.none_or, h] at hfinish
    obtain ⟨args', hargs, hcons⟩ := ok_of_bind hfinish
    cases hcons
    exact ih hnodup.2 hdecode hargs

theorem needsStorable_record (r : Record) (args : Args r.fields) {ms : List (String × Json)}
    (h : Aligned NeedsStorable r.fields args ms) :
    NeedsStorable (.record r) (.object ms) (r.build args) := by
  intro mode room hdecode
  obtain ⟨hroom, slots, args', hslots, hfinish, hbuild⟩ := decode_record_ok hdecode
  obtain rfl := r.build_injective hbuild
  exact Json.storable_object hroom (h.storable r.nodup_fields hslots hfinish)

theorem tagged_storable {τ α : Type} {fields : τ → List Field}
    {build : (t : τ) → Args (fields t) → α} (hbuild : BuildsApart build) {name tag : String}
    {t t' : τ} {args : Args (fields t)} {ms : List (String × Json)}
    (hapart : TagApart name (fields t)) (h : Aligned NeedsStorable (fields t) args ms)
    {room : Option Nat}
    (hdecode : (do
      let slots ← decodeMembers (fields t') .buffered (Slots.empty (fields t'))
        (Json.membersDraft room ((name, .string tag) :: ms))
      return build t' (← Slots.finish (fields t') slots) : Decoded α) = .ok (build t args)) :
    ∀ m ∈ (name, Json.string tag) :: ms, m.2.Storable room := by
  obtain ⟨slots, hslots, hdecode⟩ := ok_of_bind hdecode
  obtain ⟨args', hfinish, hbuilt⟩ := ok_of_bind hdecode
  obtain rfl := hbuild.tag (Except.ok.inj hbuilt)
  obtain rfl := hbuild.args t' (Except.ok.inj hbuilt)
  rw [Json.membersDraft, decodeMembers_foreign hapart.foreign] at hslots
  exact List.forall_mem_cons.mpr ⟨Json.storable_string _ _, h.storable hapart.nodup hslots hfinish⟩

theorem needsStorable_kind (t : KindTag) (args : Args t.fields) {ms : List (String × Json)}
    (h : Aligned NeedsStorable t.fields args ms) :
    NeedsStorable .propertyKind (.object (("type", .string t.tag) :: ms)) (t.build args) := by
  intro mode room hdecode
  rw [Json.draft, decode] at hdecode
  obtain ⟨hroom, hdecode⟩ := ok_of_checkDepth hdecode
  obtain ⟨t', -, hdecode⟩ := ok_of_bind hdecode
  exact Json.storable_object hroom (tagged_storable KindTag.buildsApart t.apart h hdecode)

theorem needsStorable_struct (t : StructTag) (args : Args t.fields) {ms : List (String × Json)}
    (h : Aligned NeedsStorable t.fields args ms) :
    NeedsStorable .structValue (.object (("struct", .string t.tag) :: ms)) (t.build args) := by
  intro mode room hdecode
  rw [Json.draft, decode] at hdecode
  obtain ⟨hroom, hdecode⟩ := ok_of_checkDepth hdecode
  obtain ⟨t', -, hdecode⟩ := ok_of_bind hdecode
  exact Json.storable_object hroom (tagged_storable StructTag.buildsApart t.apart h hdecode)

theorem needsStorable_value (t : ValueTag) {v : Json} {a : t.field.Carrier}
    (h : AsField NeedsStorable t.field v a) :
    NeedsStorable .propertyValue (.object [("type", .string t.tag), ("value", v)]) (t.build a) := by
  intro mode room hdecode
  obtain ⟨hroom, b, hread, hbuild⟩ := decode_value_ok hdecode
  obtain rfl := t.build_injective hbuild
  exact Json.storable_object hroom (List.forall_mem_cons.mpr
    ⟨Json.storable_string _ _, List.forall_mem_singleton.mpr (h.storable hread)⟩)

theorem needsStorable_expr (op : Opcode) (args : Args op.fields) {ms : List (String × Json)}
    (i : UInt32) (h : Aligned NeedsStorable op.fields args ms) :
    NeedsStorable .expr
      (.object (("statement_index", .int i.toNat) :: ("inst", .string op.tag) :: ms))
      ⟨i, op.build args⟩ := by
  intro mode room hdecode
  rw [Json.draft, decode] at hdecode
  obtain ⟨hroom, hdecode⟩ := ok_of_checkDepth hdecode
  obtain ⟨index, -, hdecode⟩ := ok_of_bind hdecode
  obtain ⟨_, -, hdecode⟩ := ok_of_bind hdecode
  obtain ⟨op', -, hdecode⟩ := ok_of_bind hdecode
  obtain ⟨hapart, hforeign⟩ := op.apart
  obtain ⟨slots, hslots, hdecode⟩ := ok_of_bind hdecode
  obtain ⟨args', hfinish, hbuilt⟩ := ok_of_bind hdecode
  obtain ⟨-, hnode⟩ := Expr.mk.inj (Except.ok.inj hbuilt)
  obtain rfl := Opcode.buildsApart.tag hnode
  obtain rfl := Opcode.buildsApart.args op' hnode
  rw [Json.membersDraft, decodeMembers_foreign hforeign, Json.membersDraft,
    decodeMembers_foreign hapart.foreign] at hslots
  exact Json.storable_object hroom
    (List.forall_mem_cons.mpr ⟨Json.storable_leaf (v := .int _) rfl trivial _,
    List.forall_mem_cons.mpr ⟨Json.storable_string _ _, h.storable hapart.nodup hslots hfinish⟩⟩)

theorem items_storable {s : Shape} {vs : List Json} {xs : List s.Carrier}
    (h : List.Forall₂ (NeedsStorable s) vs xs) {mode : ReadMode} {room : Option Nat}
    (hdecode : decodeItems s mode (Json.itemsDraft room vs) = .ok xs) :
    ∀ v ∈ vs, v.Storable room := by
  induction h with
  | nil => simp
  | cons hv rest ih =>
    rw [Json.itemsDraft, decodeItems] at hdecode
    obtain ⟨y, hy, hdecode⟩ := ok_of_bind hdecode
    obtain ⟨ys, hys, hcons⟩ := ok_of_bind hdecode
    cases hcons
    exact List.forall_mem_cons.mpr ⟨hv mode room hy, ih hys⟩

theorem needsStorable_list {s : Shape} {vs : List Json} {xs : List s.Carrier}
    (h : List.Forall₂ (NeedsStorable s) vs xs) : NeedsStorable (.list s) (.list vs) xs := by
  intro mode room hdecode
  obtain ⟨hroom, hitems⟩ := decode_list_ok hdecode
  exact Json.storable_list hroom (items_storable h hitems)

theorem needsStorable_pair {s t : Shape} {v w : Json} {x : s.Carrier} {y : t.Carrier}
    (hv : NeedsStorable s v x) (hw : NeedsStorable t w y) :
    NeedsStorable (.pair s t) (.list [v, w]) (x, y) := by
  intro mode room hdecode
  obtain ⟨hroom, ha, hb⟩ := decode_pair_ok hdecode
  exact Json.storable_list hroom (List.forall_mem_cons.mpr
    ⟨hv mode _ ha, List.forall_mem_singleton.mpr (hw mode _ hb)⟩)

theorem needsStorable_narrow (x : Binary32) : NeedsStorable .narrow (.narrow x) x := by
  intro mode room hdecode
  rw [decode, Json.draft_leaf rfl _ none] at hdecode
  have hback : (Json.narrow x).survives := (ofJson_leaf_iff rfl).mpr (by rwa [decode])
  exact Json.storable_leaf rfl hback room

theorem needsStorable_wide (x : Binary64) : NeedsStorable .wide (.wide x) x := by
  intro mode room hdecode
  rw [decode, Json.draft_leaf rfl _ none] at hdecode
  have hback : (Json.wide x).survives := (ofJson_leaf_iff rfl).mpr (by rwa [decode])
  exact Json.storable_leaf rfl hback room

theorem Written.needsStorable {s : Shape} {v : Json} {x : s.Carrier} (h : Written s v x) :
    NeedsStorable s v x :=
  have hleaf {s : Shape} {v : Json} {x : s.Carrier} (hv : v.isLeaf = true)
      (hsurvives : v.survives) : NeedsStorable s v x :=
    fun _ room _ => Json.storable_leaf hv hsurvives room
  Written.induction (P := NeedsStorable) (fun _ => hleaf rfl trivial) needsStorable_narrow
    needsStorable_wide (fun _ => hleaf rfl trivial) (fun _ => hleaf rfl trivial)
    (fun _ => hleaf rfl trivial) (fun _ => hleaf rfl trivial) needsStorable_list
    needsStorable_pair needsStorable_record needsStorable_kind needsStorable_struct
    needsStorable_value needsStorable_expr h

theorem storable_of_decodeDump {t : DumpTag} {v : Json} {x : t.record.Carrier}
    (h : Written (.record t.record) v x)
    (hdecode : decodeDump ((Json.object [(t.tag, v)]).draft (some 127)) = .ok (t.dump x)) :
    (Json.object [(t.tag, v)]).Storable (some 127) := by
  rw [Json.draft, Json.membersDraft, Json.membersDraft, decodeDump_tag] at hdecode
  obtain ⟨hroom, hdecode⟩ := ok_of_checkDepth hdecode
  obtain ⟨y, hv, hdump⟩ := ok_of_map hdecode
  obtain rfl : y = x := by cases t <;> cases hdump <;> rfl
  exact Json.storable_object hroom (List.forall_mem_singleton.mpr (h.needsStorable .direct _ hv))

theorem ScriptDump.storable_of_ofJson {d : ScriptDump} (h : ScriptDump.ofJson d.json.text = .ok d) :
    d.json.Storable (some 127) := by
  rw [ScriptDump.ofJson_draft] at h
  cases d with
  | class_ c => exact storable_of_decodeDump (t := .class_) c.written h
  | function f => exact storable_of_decodeDump (t := .function) f.written h

/-- Numbers of 64 bits in a text are finite. What the text holds is read back from
the text that it is stored as just when there is room for all lists and objects
that are written for it, and each number in it, of 32 bits or of 64, is read back
by itself. -/
theorem ScriptDump.ofJson_stored {text : String} {d : ScriptDump}
    (h : ScriptDump.ofJson text = .ok d) :
    (∀ x, Json.wide x ∈ d.json.leaves → x.isFinite) ∧
      (ScriptDump.ofJson d.json.text = .ok d ↔
        d.json.depth ≤ 127 ∧
          (∀ x, Json.narrow x ∈ d.json.leaves → Shape.narrow.ofJson (Json.narrow x).text = .ok x) ∧
          ∀ x, Json.wide x ∈ d.json.leaves → Shape.wide.ofJson (Json.wide x).text = .ok x) := by
  refine ⟨fun x hx => d.spelled_of_ofJson h _ hx, fun hagain => ?_, ?_⟩
  · have hstorable := d.storable_of_ofJson hagain
    exact ⟨hstorable.depth 127 rfl, fun x hx => hstorable.numbers _ hx, fun x hx =>
      hstorable.numbers _ hx⟩
  · rintro ⟨hdepth, hnarrow, hwide⟩
    have hsurvives : d.json.everyLeaf Json.survives := by
      intro w hw
      cases w with
      | narrow x => exact hnarrow x hw
      | wide x => exact hwide x hw
      | _ => exact trivial
    rw [ScriptDump.ofJson_draft, depthLimit, decodeDump_json d hsurvives, within_of_le hdepth]

/-- The number nearest to `5 * 10 ^ 39` is not read back: the one below it is read. -/
example : Binary64.storedText ⟨0x482d6329f1c35ca5⟩ = some "5e+39" ∧
    (readNumber "5e+39".toList).toOption.map (·.1.number) = some (.real ⟨0x482d6329f1c35ca4⟩) := by
  decide +kernel

def constantFunction (x : Binary32) : ScriptDump := .function ⟨"f", none, [], [⟨0, .float x⟩]⟩

def constantSource (x : Binary64) : Json :=
  .object [("function", .object [("name", .string "f"),
    ("script", .list [.object [("inst", .string "FloatConst"), ("value", .wide x)]])])]

theorem ofJson_constantSource {x : Binary64}
    (h : ∀ room, (Json.wide x).draft room = .number (.real x)) :
    ScriptDump.ofJson (constantSource x).text = .ok (constantFunction x.toBinary32) := by
  rw [ScriptDump.ofJson_draft, constantSource]
  simp only [Json.draft, Json.membersDraft, Json.itemsDraft] at h ⊢
  rw [h (some 127)]
  rfl

theorem ScriptDump.ofJson_stored_oneAndAHalf :
    (constantSource ⟨0x3ff8000000000000⟩).text =
        "\x7b\"function\":\x7b\"name\":\"f\",\"script\":[\x7b\"inst\":\"FloatConst\",\"value\":1.5\x7d]\x7d\x7d" ∧
      ScriptDump.ofJson (constantSource ⟨0x3ff8000000000000⟩).text =
        .ok (constantFunction ⟨0x3fc00000⟩) ∧
      ScriptDump.ofJson (constantFunction ⟨0x3fc00000⟩).json.text =
        .ok (constantFunction ⟨0x3fc00000⟩) := by
  have hnarrow : Binary64.toBinary32 ⟨0x3ff8000000000000⟩ = ⟨0x3fc00000⟩ := by decide +kernel
  have hread := hnarrow ▸ ofJson_constantSource draft_oneAndAHalf
  have hleaves : (constantFunction ⟨0x3fc00000⟩).json.leaves =
      [.string "f", .null, .int 0, .string "FloatConst", .narrow ⟨0x3fc00000⟩] := rfl
  refine ⟨by decide +kernel, hread,
    (ScriptDump.ofJson_stored hread).2.mpr ⟨by decide, fun x hx => ?_, fun x hx => ?_⟩⟩
  · obtain rfl : x = ⟨0x3fc00000⟩ := by simpa [hleaves] using hx
    exact survives_oneAndAHalf
  · simp [hleaves] at hx

/-- A number that is too large for 32 bits is read as infinity, which is written
as null and not read again. -/
theorem ScriptDump.ofJson_stored_infinity :
    (constantSource ⟨0x48078287f49c4a1d⟩).text =
        "\x7b\"function\":\x7b\"name\":\"f\",\"script\":[\x7b\"inst\":\"FloatConst\",\"value\":1e+39\x7d]\x7d\x7d" ∧
      ScriptDump.ofJson (constantSource ⟨0x48078287f49c4a1d⟩).text =
        .ok (constantFunction ⟨0x7f800000⟩) ∧
      ∃ e, ScriptDump.ofJson (constantFunction ⟨0x7f800000⟩).json.text = .error e ∧
        e.category = .data := by
  have hdraft (room : Option Nat) :
      (Json.wide ⟨0x48078287f49c4a1d⟩).draft room = .number (.real ⟨0x48078287f49c4a1d⟩) :=
    Json.draft_wide (t := "1e+39") (p := ⟨false, ['1'], [], 39, true⟩) (by decide +kernel) rfl
      (by decide +kernel) room
  have hnarrow : Binary64.toBinary32 ⟨0x48078287f49c4a1d⟩ = ⟨0x7f800000⟩ := by decide +kernel
  have hread := hnarrow ▸ ofJson_constantSource hdraft
  refine ⟨by decide +kernel, hread, .misfit (.invalidType .null "f32"), ?_, rfl⟩
  rw [ScriptDump.ofJson_draft]
  rfl

end Pseudocode
