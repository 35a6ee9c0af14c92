import Pseudocode.Proofs.WrittenTags

/-! Every value is decoded from the text that it is written as, if it is not too
deep and its numbers are read back. What a dump was decoded from has one member,
the dump under its tag. -/

namespace Pseudocode

theorem decodeItems_encoded {s : Shape} {vs : List Json} {xs : List s.Carrier}
    (h : List.Forall₂ (fun v x => Decodes (decode s) v x) vs xs) :
    (∀ room, decodeItems s .direct (Json.itemsDraft (some room) vs) =
      within (Json.itemsDepth vs) room xs) ∧
      decodeItems s .buffered (Json.itemsDraft none vs) = .ok xs := by
  induction h with
  | nil =>
    refine ⟨fun room => ?_, ?_⟩
    · rw [Json.itemsDraft, decodeItems]
      rfl
    · rw [Json.itemsDraft, decodeItems]
  | @cons v x vs xs hx _ ih =>
    obtain ⟨hdirect, hbuffered⟩ := ih
    have hcons (mode : ReadMode) (room : Option Nat) :
        decodeItems s mode (Json.itemsDraft room (v :: vs)) =
          (decode s mode (v.draft room)).bind fun a =>
            (decodeItems s mode (Json.itemsDraft room vs)).map (a :: ·) := by
      rw [Json.itemsDraft, decodeItems]
      rfl
    refine ⟨fun room => ?_, ?_⟩
    · rw [hcons, hx.direct, Json.itemsDepth]
      exact within_bind fun _ => by rw [hdirect, within_map]
    · rw [hcons, hx.buffered, Except.bind, hbuffered]
      rfl

theorem encodes_list {s : Shape} {vs : List Json} {xs : List s.Carrier}
    (h : List.Forall₂ (Encodes s) vs xs) : Encodes (.list s) (.list vs) xs := by
  intro hleaves
  have hvs := Json.everyLeaf_list.mp hleaves
  have hitems : List.Forall₂ (fun v x => Decodes (decode s) v x) vs xs := by
    clear hleaves
    induction h with
    | nil => exact .nil
    | cons hx _ ih =>
      exact .cons (hx (hvs _ List.mem_cons_self)) (ih fun v hv => hvs v (List.mem_cons_of_mem _ hv))
  have hrange : ∀ v ∈ vs, v.inRange := by
    clear hleaves hvs h
    induction hitems with
    | nil => simp
    | cons hx _ ih => exact List.forall_mem_cons.mpr ⟨hx.inRange, ih⟩
  obtain ⟨hdirect, hbuffered⟩ := decodeItems_encoded hitems
  refine ⟨Json.everyLeaf_list.mpr hrange, fun room => ?_, ?_⟩
  · rw [Json.draft, decode, Json.depth]
    refine checkDepth_bind fun r hr => ?_
    rw [room_inside hr, hdirect]
    exact within_bind_ok fun _ => rfl
  · rw [Json.draft, decode, Option.map_none, hbuffered]
    rfl

theorem decodeElements_pair (s t : Shape) (v w : Json) (mode : ReadMode) (room : Option Nat) :
    decodeElements "a tuple of size 2" mode .closed 0 [.required "" s, .required "" t]
      (Json.itemsDraft room [v, w]) =
      (decode s mode (v.draft room)).bind fun a => (decode t mode (w.draft room)).map fun b =>
        (a, b, ()) := by
  rw [Json.itemsDraft, Json.itemsDraft, Json.itemsDraft, decodeElements, decodeElements,
    decodeElements]
  simp only [readField, closeList, checkFault, ListEnd.closingFault?, ListEnd.fault?]
  cases decode s mode (v.draft room) with
  | error e => rfl
  | ok a => cases decode t mode (w.draft room) <;> rfl

theorem encodes_pair {s t : Shape} {v w : Json} {x : s.Carrier} {y : t.Carrier} (hv : Encodes s v x)
    (hw : Encodes t w y) : Encodes (.pair s t) (.list [v, w]) (x, y) := by
  intro hleaves
  have hx := hv (Json.everyLeaf_list.mp hleaves v (by simp))
  have hy := hw (Json.everyLeaf_list.mp hleaves w (by simp))
  refine ⟨Json.everyLeaf_list.mpr (List.forall_mem_cons.mpr
    ⟨hx.inRange, List.forall_mem_singleton.mpr hy.inRange⟩), fun room => ?_, ?_⟩
  · have hdepth : Json.itemsDepth [v, w] = max v.depth w.depth := by simp [Json.itemsDepth]
    rw [Json.draft, decode, Json.depth, hdepth]
    refine checkDepth_bind fun r hr => ?_
    rw [room_inside hr, decodeElements_pair, hx.direct]
    have hrest : within (max v.depth w.depth) r (x, y, ()) = (within v.depth r x).bind fun a =>
        (decode t .direct (w.draft (some r))).map fun b => (a, b, ()) :=
      (within_bind fun _ => by rw [hy.direct, within_map]).symm
    rw [← hrest]
    exact within_bind_ok fun _ => rfl
  · rw [Json.draft, decode, Option.map_none, decodeElements_pair, hx.buffered, Except.bind,
      hy.buffered]
    rfl

theorem decode_record_ok {r : Record} {ms : List (String × Json)} {mode : ReadMode}
    {room : Option Nat} {x : (Shape.record r).Carrier}
    (h : decode (.record r) mode ((Json.object ms).draft room) = .ok x) :
    room ≠ some 0 ∧ ∃ slots args,
      decodeMembers r.fields mode (Slots.empty r.fields) (Json.membersDraft (room.map (· - 1)) ms) =
        .ok slots ∧
        Slots.finish r.fields slots = .ok args ∧ r.build args = x := by
  rw [Json.draft, decode] at h
  obtain ⟨hroom, h⟩ := ok_of_checkDepth h
  obtain ⟨slots, hslots, h⟩ := ok_of_bind h
  obtain ⟨_, -, h⟩ := ok_of_bind h
  obtain ⟨args, hargs, hbuild⟩ := ok_of_bind h
  exact ⟨hroom, slots, args, hslots, hargs, Except.ok.inj hbuild⟩

theorem decode_value_ok {t : ValueTag} {v : Json} {mode : ReadMode} {room : Option Nat}
    {x : PropertyValue}
    (h : decode .propertyValue mode
      ((Json.object [("type", .string t.tag), ("value", v)]).draft room) = .ok x) :
    room ≠ some 0 ∧ ∃ a,
      (readField t.field (v.draft (room.map (· - 1))) fun s =>
        decode s mode (v.draft (room.map (· - 1)))) = .ok a ∧
        t.build a = x := by
  rw [Json.draft, decode] at h
  obtain ⟨hroom, h⟩ := ok_of_checkDepth h
  rw [decodeTagged_front] at h
  exact ⟨hroom, ok_of_map h⟩

theorem decode_list_ok {s : Shape} {vs : List Json} {mode : ReadMode} {room : Option Nat}
    {xs : List s.Carrier} (h : decode (.list s) mode ((Json.list vs).draft room) = .ok xs) :
    room ≠ some 0 ∧ decodeItems s mode (Json.itemsDraft (room.map (· - 1)) vs) = .ok xs := by
  rw [Json.draft, decode] at h
  obtain ⟨hroom, h⟩ := ok_of_checkDepth h
  obtain ⟨ys, hys, h⟩ := ok_of_bind h
  obtain ⟨_, -, hxs⟩ := ok_of_bind h
  cases hxs
  exact ⟨hroom, hys⟩

theorem decode_pair_ok {s t : Shape} {v w : Json} {mode : ReadMode} {room : Option Nat}
    {z : (Shape.pair s t).Carrier}
    (h : decode (.pair s t) mode ((Json.list [v, w]).draft room) = .ok z) :
    room ≠ some 0 ∧ decode s mode (v.draft (room.map (· - 1))) = .ok z.1 ∧
      decode t mode (w.draft (room.map (· - 1))) = .ok z.2 := by
  rw [Json.draft, decode] at h
  obtain ⟨hroom, h⟩ := ok_of_checkDepth h
  rw [decodeElements_pair] at h
  obtain ⟨_, hab, hz⟩ := ok_of_bind h
  obtain ⟨a, ha, hmap⟩ := ok_of_bind hab
  obtain ⟨b, hb, rfl⟩ := ok_of_map hmap
  cases hz
  exact ⟨hroom, ha, hb⟩

theorem encodes_bool (x : Bool) : Encodes .bool (.bool x) x :=
  fun _ => Decodes.leaf rfl rfl fun mode => by rw [Json.draft, decode, decodeBool]

theorem encodes_text (x : String) : Encodes .text (.string x) x :=
  fun _ =>
    Decodes.leaf rfl rfl fun mode => by rw [Json.draft, decode, decodeText, Quotation.read_closed]

theorem encodes_structuralKind (x : StructuralKind) :
    Encodes .structuralKind (.string x.tag) x := by
  have hfind : StructuralKind.all.find? (StructuralKind.tag · = x.tag) = some x := by
    cases x <;> rfl
  exact fun _ =>
    Decodes.leaf rfl rfl fun mode => by rw [Json.draft, decode, decodeName_closed hfind]

theorem encodes_conversion (x : Conversion) : Encodes .conversion (.string x.tag) x := by
  have hfind : Conversion.all.find? (Conversion.tag · = x.tag) = some x := by cases x <;> rfl
  exact fun _ =>
    Decodes.leaf rfl rfl fun mode => by rw [Json.draft, decode, decodeName_closed hfind]

/-- A leaf is read back from its own text if it is in every other place. -/
theorem ofJson_leaf_iff {s : Shape} {v : Json} {x : s.Carrier} (hleaf : v.isLeaf = true) :
    s.ofJson v.text = .ok x ↔ decode s .direct (v.draft none) = .ok x := by
  rw [Shape.ofJson, decodeAll, Json.document_text, Json.draft_leaf hleaf _ none]
  cases decode s .direct (v.draft none) with
  | error e =>
    constructor
    · intro h
      cases h
    · intro h
      cases h
  | ok y => exact Iff.rfl

theorem encodes_wide (x : Binary64) : Encodes .wide (.wide x) x := by
  intro hleaves
  have hdecode := (ofJson_leaf_iff (s := .wide) rfl).mp ((Json.everyLeaf_leaf rfl).mp hleaves)
  rw [decode] at hdecode
  refine Decodes.leaf rfl ?_ fun mode => by rw [decode, hdecode]
  refine Json.fault?_real rfl fun hrange => ?_
  rw [hrange] at hdecode
  cases hdecode

theorem encodes_narrow (x : Binary32) : Encodes .narrow (.narrow x) x := by
  intro hleaves
  have hdecode := (ofJson_leaf_iff (s := .narrow) rfl).mp ((Json.everyLeaf_leaf rfl).mp hleaves)
  rw [decode] at hdecode
  refine Decodes.leaf rfl ?_ fun mode => by rw [decode, hdecode]
  refine Json.fault?_real rfl fun hrange => ?_
  rw [hrange] at hdecode
  cases hdecode

/-- What is written is decoded, provided that its numbers are. -/
theorem Written.encodes {s : Shape} {v : Json} {x : s.Carrier} (h : Written s v x) :
    Encodes s v x :=
  Written.induction (P := Encodes) encodes_int encodes_narrow encodes_wide encodes_bool encodes_text
    encodes_structuralKind encodes_conversion encodes_list encodes_pair encodes_record (fun _ _ _ =>
    encodes_kind) (fun _ _ _ => encodes_struct) (fun _ _ _ => encodes_value) (fun _ _ _ i h =>
    encodes_expr h i) h

namespace DumpTag

abbrev record : DumpTag → Record
  | class_ => .class_
  | function => .function

def dump : (t : DumpTag) → t.record.Carrier → ScriptDump
  | class_, c => .class_ c
  | function, f => .function f

theorem find_tag (t : DumpTag) : DumpTag.all.find? (DumpTag.tag · = t.tag) = some t := by
  cases t <;> rfl

end DumpTag

theorem ScriptDump.ofJson_draft (v : Json) :
    ScriptDump.ofJson v.text = decodeDump (v.draft (some depthLimit)) := by
  rw [ScriptDump.ofJson, decodeAll, Json.document_text]
  cases decodeDump (v.draft (some depthLimit)) <;> rfl

/-- A dump is the only member of an object, and is decoded as the record that its
name calls for. -/
theorem decodeDump_object (tooDeep : Bool) (key : Quotation) (d : Draft)
    (rest : List (Quotation × Draft)) (ending : ObjectEnd) :
    decodeDump (.object tooDeep ((key, d) :: rest) ending) =
      checkDepth tooDeep >>= fun _ => key.read >>= fun name =>
        chooseName DumpTag.all DumpTag.tag name >>= fun t =>
        decode (.record t.record) .direct d >>= fun x => checkSingle rest ending >>= fun _ =>
            .ok (t.dump x) := by
  rw [decodeDump]
  congr 1
  funext _
  congr 1
  funext name
  congr 1
  funext t
  cases t with
  | class_ => cases decode (.record .class_) .direct d <;> rfl
  | function => cases decode (.record .function) .direct d <;> rfl

theorem decodeDump_tag (t : DumpTag) (tooDeep : Bool) (d : Draft) :
    decodeDump (.object tooDeep [(.closed t.tag, d)] .closed) =
      (checkDepth tooDeep).bind fun _ => (decode (.record t.record) .direct d).map t.dump := by
  have hchoose : chooseName DumpTag.all DumpTag.tag t.tag = .ok t := chooseName_tag t.find_tag
  simp only [decodeDump_object, Quotation.read_closed, hchoose, checkSingle, bind, Except.bind]
  rfl

theorem chooseName_ok {α : Type} {all : List α} {tag : α → String} {name : String} {a : α}
    (h : chooseName all tag name = .ok a) : tag a = name := by
  unfold chooseName at h
  cases hfind : all.find? (tag · = name) with
  | none =>
    rw [hfind] at h
    cases h
  | some b =>
    rw [hfind] at h
    cases h
    simpa using List.find?_some hfind

theorem checkSingle_ok {rest : List (Quotation × Draft)} {ending : ObjectEnd} {x : Unit}
    (h : checkSingle rest ending = .ok x) : rest = [] := by
  cases rest with
  | nil => rfl
  | cons m rest =>
    obtain ⟨q, d⟩ := m
    rw [checkSingle] at h
    · cases h
    all_goals simp

theorem decodeDump_ok {document : Draft} {dump : ScriptDump} (h : decodeDump document = .ok dump) :
    ∃ (t : DumpTag) (tooDeep : Bool) (key : Quotation) (d : Draft) (ending : ObjectEnd)
      (x : t.record.Carrier),
      document = .object tooDeep [(key, d)] ending ∧ key.read = .ok t.tag ∧
        decode (.record t.record) .direct d = .ok x ∧ dump = t.dump x := by
  cases document with
  | object tooDeep members ending =>
    cases members with
    | nil =>
      obtain ⟨_, -, h⟩ := ok_of_bind h
      cases ending <;> cases h
    | cons m rest =>
      obtain ⟨key, d⟩ := m
      rw [decodeDump_object] at h
      obtain ⟨_, -, h⟩ := ok_of_bind h
      obtain ⟨name, hkey, h⟩ := ok_of_bind h
      obtain ⟨t, htag, h⟩ := ok_of_bind h
      obtain ⟨x, hx, h⟩ := ok_of_bind h
      obtain ⟨_, hsingle, hdump⟩ := ok_of_bind h
      obtain rfl := chooseName_ok htag
      obtain rfl := checkSingle_ok hsingle
      exact ⟨t, tooDeep, key, d, ending, x, rfl, hkey, hx, (Except.ok.inj hdump).symm⟩
  | string q =>
    obtain ⟨name, -, h⟩ := ok_of_bind h
    obtain ⟨_, -, h⟩ := ok_of_bind h
    cases h
  | _ => cases h

end Pseudocode
