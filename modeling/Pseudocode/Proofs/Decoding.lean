import Pseudocode.Proofs.DecodedProperties

/-! Decoding a value gives what the value is read as, and fails when it is read
as nothing. -/

namespace Pseudocode

theorem toOption_decodeItems (s : Shape) (mode : ReadMode) {items : List Json}
    (hitems : ∀ v ∈ items, Agrees v) :
    (decodeItems s mode (Json.itemsDraft none items)).toOption =
      (Json.itemsReading true items).mapM fun r => r.as s mode := by
  induction items with
  | nil =>
    rw [Json.itemsDraft, decodeItems]
    rfl
  | cons v items ih =>
    have ih := ih fun w hw => hitems w (List.mem_cons_of_mem _ hw)
    rw [Json.itemsDraft, decodeItems, Json.itemsReading, List.mapM_cons, toOption_bind,
      hitems v List.mem_cons_self s mode, ← ih]
    simp only [toOption_bind]
    rfl

theorem toOption_absentItems (expected : String) (index : Nat) (fs : List Field) (mode : ReadMode) :
    (absentItems expected index fs).toOption = readElements mode fs [] := by
  induction fs generalizing index with
  | nil => rfl
  | cons f fs ih =>
    rw [absentItems, readElements, ← ih (index + 1)]
    cases f.absent with
    | none => rfl
    | some a =>
      simp only [toOption_bind, Option.bind_some]
      cases (absentItems expected (index + 1) fs).toOption <;> rfl

theorem toOption_decodeElements (expected : String) (mode : ReadMode) (index : Nat)
    (fs : List Field) {items : List Json} (hitems : ∀ v ∈ items, Agrees v) :
    (decodeElements expected mode .closed index fs (Json.itemsDraft none items)).toOption =
      readElements mode fs (Json.itemsReading true items) := by
  induction fs generalizing items index with
  | nil =>
    rw [decodeElements]
    cases items with
    | nil =>
      simp [Json.itemsDraft, Json.itemsReading, closeList, checkFault, ListEnd.closingFault?,
        ListEnd.fault?, readElements, bind, Except.bind, pure, Except.pure, Except.toOption]
    | cons v items =>
      rw [Json.itemsReading, readElements]
      cases mode <;> simp [Json.itemsDraft, closeList, failWith, bind, Except.bind, Except.toOption]
  | cons f fs ih =>
    cases items with
    | nil =>
      rw [Json.itemsDraft, decodeElements, Json.itemsReading, ← toOption_absentItems expected index]
      · rfl
      · simp
    | cons v items =>
      have ih := ih (index + 1) fun w hw => hitems w (List.mem_cons_of_mem _ hw)
      have hv := (hitems v List.mem_cons_self).field f mode
      rw [Json.itemsDraft, decodeElements, Json.itemsReading, readElements, toOption_bind, hv, ← ih]
      cases (v.reading true).field f mode with
      | none => rfl
      | some a =>
        cases decodeElements expected mode .closed (index + 1) fs (Json.itemsDraft none items) <;>
          simp [bind, Except.bind, pure, Except.pure, Except.toOption]

theorem toOption_builtElements {α : Type} (expected : String) (mode : ReadMode) (fs : List Field)
    (build : Args fs → α) {items : List Json} (hitems : ∀ v ∈ items, Agrees v) :
    (do return build (← decodeElements expected mode .closed 0 fs (Json.itemsDraft none items)) :
        Decoded α).toOption =
      (readElements mode fs (Json.itemsReading true items)).map build := by
  rw [toOption_bind, toOption_decodeElements expected mode 0 fs hitems]
  cases readElements mode fs (Json.itemsReading true items) <;> rfl

theorem Reading.field_required (r : Reading) (f : Field) (mode : ReadMode) :
    r.field ⟨f.name, f.shape, f.nullable, none⟩ mode = r.field f mode := by
  obtain ⟨name, s, nullable, absent⟩ := f
  cases nullable <;> rfl

theorem toOption_decodeTaggedItems (mode : ReadMode) (t : ValueTag) {items : List Json}
    (hitems : ∀ v ∈ items, Agrees v) :
    (decodeTaggedItems mode .closed (some t) (Json.itemsDraft none items)).toOption =
      (readElements mode [⟨t.field.name, t.field.shape, t.field.nullable, none⟩]
        (Json.itemsReading true items)).map
        fun a => t.build a.1 := by
  cases items with
  | nil =>
    rw [Json.itemsDraft, decodeTaggedItems]
    rfl
  | cons v items =>
    have hv := (hitems v List.mem_cons_self).field t.field mode
    have hclose : (closeList mode (2 + (Json.itemsDraft none items).length) 2 .closed).toOption =
        readElements mode [] (Json.itemsReading true items) := by
      cases items with
      | nil =>
        simp [Json.itemsDraft, Json.itemsReading, closeList, checkFault, ListEnd.closingFault?,
          ListEnd.fault?, readElements, Except.toOption]
      | cons w items =>
        rw [Json.itemsReading, readElements]
        cases mode <;> simp [Json.itemsDraft, closeList, failWith, Except.toOption]
    rw [Json.itemsDraft, decodeTaggedItems, toOption_bind, hv, Json.itemsReading, readElements,
      Reading.field_required]
    cases (v.reading true).field t.field mode with
    | none => rfl
    | some a =>
      simp only [Option.bind_some, toOption_bind, hclose]
      cases readElements mode [] (Json.itemsReading true items) <;> rfl

theorem toOption_taggedList {τ α : Type} {dec : Draft → Decoded τ} {fields : τ → List Field}
    {build : (t : τ) → Args (fields t) → α} (title : τ → String) (mode : ReadMode) (v : Json)
    {rest : List Json} (hrange : ∀ w ∈ rest, w.inRange) (hrest : ∀ w ∈ rest, Agrees w) :
    (do
      let t ← dec (v.draft none)
      mode.buffer (.list false (Json.itemsDraft none rest) .closed)
      return build t
        (← decodeElements (title t) .buffered .closed 0 (fields t) (Json.itemsDraft none rest)) :
        Decoded α).toOption =
      (dec (v.draft none)).toOption.bind fun t =>
        (readElements .buffered (fields t) (Json.itemsReading true rest)).map (build t) := by
  have hbuffer : mode.buffer (.list false (Json.itemsDraft none rest) .closed) = .ok () :=
    buffer_draft mode (v := .list rest) (Json.everyLeaf_list.mpr hrange)
  rw [toOption_bind]
  cases (dec (v.draft none)).toOption with
  | none => rfl
  | some t =>
    rw [Option.bind_some, Option.bind_some, hbuffer, ← toOption_builtElements (title t) _ _ _ hrest]
    rfl

theorem checkDepth_none : checkDepth (decide ((none : Option Nat) = some 0)) = .ok () := rfl

theorem toOption_builtFields {α : Type} {fs : List Field} (hnodup : (fs.map Field.name).Nodup)
    (mode : ReadMode) (build : Args fs → α) {ms : List (String × Json)}
    (hms : ∀ m ∈ ms, Agrees m.2) :
    (do
      let slots ← decodeMembers fs mode (Slots.empty fs) (Json.membersDraft none ms)
      return build (← Slots.finish fs slots) : Decoded α).toOption =
      (readFields mode fs (Json.membersReading true ms)).map build := by
  rw [toOption_bind, ← toOption_decodeFields hnodup mode hms, Option.map_bind]
  congr 1
  funext slots
  rw [Function.comp_apply]
  cases Slots.finish fs slots <;> rfl

theorem toOption_taggedObject {τ α : Type} (dec : Draft → Decoded τ) {fields : τ → List Field}
    (build : (t : τ) → Args (fields t) → α) (name : String) (mode : ReadMode)
    {ms : List (String × Json)} (hrange : ∀ m ∈ ms, m.2.inRange) (hms : ∀ m ∈ ms, Agrees m.2)
    (hnodup : ∀ t, ((fields t).map Field.name).Nodup) :
    (do
      let t ← requireTag name dec mode (Json.membersDraft none ms) .closed
      let slots ← decodeMembers (fields t) .buffered (Slots.empty (fields t))
        (Json.membersDraft none ms)
      return build t (← Slots.finish (fields t) slots) : Decoded α).toOption =
      (tagOf name dec ms).bind fun t =>
        (readFields .buffered (fields t) (Json.membersReading true ms)).map (build t) := by
  rw [toOption_bind, toOption_requireTag name dec mode hrange]
  cases tagOf name dec ms with
  | none => rfl
  | some t =>
    exact toOption_builtFields (hnodup t) .buffered (build t) hms

theorem readObject_form {s : Shape} {mode : ReadMode} {ms : List (String × Json)}
    (h : readName s mode (.object ms) = none) (ordered : Bool) (rs : List (String × Reading)) :
    readObject ordered s mode ms rs = (s.form? mode ms).bind fun form =>
      (readFields (objectMode ordered s mode ms) form.fields rs).map form.build := by
  rw [readObject, h, Option.or_none]

theorem agrees_leaf {v : Json} (h : v.isLeaf = true) : Agrees v := by
  intro s mode
  cases v with
  | list items => cases h
  | object members => cases h
  | _ => rfl

theorem agrees_list {items : List Json} (hrange : ∀ v ∈ items, v.inRange)
    (hitems : ∀ v ∈ items, Agrees v) : Agrees (.list items) := by
  intro s mode
  have hreading : ((Json.list items).reading true).as s mode =
      readList s mode items (Json.itemsReading true items) := rfl
  rw [hreading, Json.draft]
  cases s with
  | list item =>
    rw [decode, checkDepth_none, Option.map_none, readList, ← toOption_decodeItems item mode hitems]
    cases decodeItems item mode (Json.itemsDraft none items) <;> rfl
  | pair first second =>
    rw [decode, checkDepth_none, Option.map_none, readList_form (by simp), Shape.listForm?]
    exact toOption_builtElements _ mode [.required "" first, .required "" second]
      (fun a => (a.1, a.2.1)) hitems
  | record r =>
    rw [decode, checkDepth_none, Option.map_none, readList_form (by simp), Shape.listForm?]
    exact toOption_builtElements _ mode r.fields r.build hitems
  | propertyKind =>
    cases items with
    | nil =>
      rw [Json.itemsDraft, decode]
      rfl
    | cons v rest =>
      rw [Json.itemsDraft, decode, checkDepth_none, Option.map_none, readList_form (by simp),
        Shape.listForm?, Option.bind_map]
      exact toOption_taggedList (fun t : KindTag => fieldsText t.title t.fields) mode v
        (List.forall_mem_cons.mp hrange).2 (List.forall_mem_cons.mp hitems).2
  | structValue =>
    cases items with
    | nil =>
      rw [Json.itemsDraft, decode]
      rfl
    | cons v rest =>
      rw [Json.itemsDraft, decode, checkDepth_none, Option.map_none, readList_form (by simp),
        Shape.listForm?, Option.bind_map]
      exact toOption_taggedList (fun t : StructTag => fieldsText t.title t.fields) mode v
        (List.forall_mem_cons.mp hrange).2 (List.forall_mem_cons.mp hitems).2
  | propertyValue =>
    rw [decode, checkDepth_none, Option.map_none]
    cases items with
    | nil => rfl
    | cons v rest =>
      rw [Json.itemsDraft, decodeTaggedItems, readList_form (by simp), Shape.listForm?,
        Option.bind_map]
      refine (toOption_bind (decodeTag ValueTag.all ValueTag.tag mode (v.draft none)) _).trans ?_
      simp only [toOption_decodeTaggedItems mode _ (List.forall_mem_cons.mp hitems).2]
      rfl
  | structuralKind =>
    rw [decode]
    cases mode with
    | direct => rfl
    | buffered => exact toOption_mismatch _ _
  | conversion =>
    rw [decode]
    cases mode with
    | direct => rfl
    | buffered => exact toOption_mismatch _ _
  | expr =>
    rw [decode]
    · exact toOption_mismatch _ _
    · simp
  | _ =>
    rw [decode]
    exact toOption_mismatch _ _

theorem agrees_object {ms : List (String × Json)} (hrange : ∀ m ∈ ms, m.2.inRange)
    (hms : ∀ m ∈ ms, Agrees m.2) : Agrees (.object ms) := by
  intro s mode
  have hreading : ((Json.object ms).reading true).as s mode =
      readObject true s mode ms (Json.membersReading true ms) := rfl
  rw [hreading, Json.draft]
  cases s with
  | record r =>
    rw [decode, checkDepth_none, Option.map_none, readObject_form rfl, Shape.form?,
      Option.bind_some]
    exact toOption_builtFields r.nodup_fields mode r.build hms
  | propertyKind =>
    rw [decode, checkDepth_none, Option.map_none, readObject_form rfl, Shape.form?, Option.bind_map]
    exact toOption_taggedObject _ KindTag.build "type" mode hrange hms fun t : KindTag =>
      t.apart.nodup
  | structValue =>
    rw [decode, checkDepth_none, Option.map_none, readObject_form rfl, Shape.form?, Option.bind_map]
    exact toOption_taggedObject _ StructTag.build "struct" mode hrange hms fun t : StructTag =>
      t.apart.nodup
  | propertyValue =>
    rw [decode, checkDepth_none, Option.map_none, readObject_form rfl, Shape.form?, Option.bind_map]
    refine (toOption_decodeTagged_none mode hms hrange).trans ?_
    simp only [← readFields_value]
    rfl
  | expr =>
    have hfields (index : UInt32) :=
      toOption_taggedObject (decodeTag Opcode.all Opcode.tag .buffered) (fun op args =>
        (⟨index, op.build args⟩ : Expr)) "inst" .buffered hrange hms fun op => op.apart.1.nodup
    rw [decode, checkDepth_none, Option.map_none, readObject_form rfl, Shape.form?, Option.bind_map]
    simp only [Function.comp_def, objectMode, Shape.partMode, readFields,
      ← toOption_findIndex mode hrange hms]
    change (findTag "statement_index" (decodeInt .u32) mode none (Json.membersDraft none ms)
      >>= _).toOption = _
    rw [toOption_bind]
    cases (findTag "statement_index" (decodeInt .u32) mode none
        (Json.membersDraft none ms)).toOption with
    | none => cases tagOf "inst" (decodeTag Opcode.all Opcode.tag .buffered) ms <;> rfl
    | some index =>
      simp only [Option.map_some, Option.bind_some, Option.map_map]
      exact hfields (index.getD 0)
  | structuralKind =>
    rw [decode]
    rfl
  | conversion =>
    rw [decode]
    rfl
  | list item =>
    rw [decode]
    · exact toOption_mismatch _ _
    · simp
  | pair first second =>
    rw [decode]
    · exact toOption_mismatch _ _
    · simp
  | _ =>
    rw [decode]
    exact toOption_mismatch _ _

theorem agrees {v : Json} (h : v.inRange) : Agrees v := by
  induction v using Json.induction with
  | leaf v hleaf => exact agrees_leaf hleaf
  | list items ih =>
    have hrange := Json.everyLeaf_list.mp h
    exact agrees_list hrange fun v hv => ih v hv (hrange v hv)
  | object ms ih =>
    have hrange := Json.everyLeaf_object.mp h
    exact agrees_object hrange fun m hm => ih m hm (hrange m hm)

end Pseudocode
