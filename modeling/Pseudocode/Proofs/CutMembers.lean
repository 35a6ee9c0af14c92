import Pseudocode.Proofs.CutSteps

/-! Objects that break off. The members in front of the break are decoded as
when the text goes on; then a member, or the end of the object, is missed. -/

namespace Pseudocode

theorem Slots.fill_failsAtEnd {name : String} {read read' : (f : Field) → Decoded f.Carrier}
    {fs : List Field} {slots : Slots fs} {filled : Option (Slots fs)}
    (hwhole : fill name read fs slots = .ok filled)
    (h : ∀ f ∈ fs, f.name = name → ∀ b, read f = .ok b → FailsAtEnd (read' f)) :
    FailsAtEnd (fill name read' fs slots) := by
  induction fs with
  | nil => exact failsAtEnd_ok none
  | cons f fs ih =>
    obtain ⟨slot, slots⟩ := slots
    rw [fill_cons] at hwhole ⊢
    by_cases hname : f.name = name
    · rw [if_pos hname] at hwhole ⊢
      cases slot with
      | some a => cases hwhole
      | none =>
        obtain ⟨b, hb, -⟩ := ok_of_bind hwhole
        exact (h f List.mem_cons_self hname b hb).bind fun a _ => failsAtEnd_ok _
    · rw [if_neg hname] at hwhole ⊢
      obtain ⟨filled', hfilled, -⟩ := ok_of_bind hwhole
      exact (ih hfilled fun g hg => h g (List.mem_cons_of_mem f hg)).bind fun slots' _ =>
        failsAtEnd_ok _

def FieldsBreakOff (fs : List Field) (ms : List (String × Json)) : Prop :=
  ∀ m ∈ ms, m.1 ∈ fs.map Field.name ∧ ∀ f ∈ fs, f.name = m.1 → FieldBreaksOff f m.2

theorem Aligned.fieldsBreakOff {fs : List Field} {args : Args fs} {ms : List (String × Json)}
    (h : Aligned BreaksOff fs args ms) (hnodup : (fs.map Field.name).Nodup) :
    FieldsBreakOff fs ms := by
  intro m hm
  obtain ⟨hkey, hfield⟩ := h.field hnodup m hm
  refine ⟨hkey, fun f hf hname => ?_⟩
  obtain ⟨a, ha⟩ := hfield f hf hname
  exact ha.breaksOff

theorem decodeMembers_last {fs : List Field} {key : String} {v : Json}
    {rest : List (Quotation × Draft)} (hkey : key ∈ fs.map Field.name) {slots slots' : Slots fs}
    (hwhole : decodeMembers fs .direct slots ((.closed key, v.draft none) :: rest) = .ok slots')
    {d : Draft}
    (h : ∀ f ∈ fs, f.name = key → ∀ b, (readField f (v.draft none) fun s => decode s .direct
      (v.draft none)) = .ok b → FailsAtEnd (readField f d fun s => decode s .direct d)) :
    FailsAtEnd (decodeMembers fs .direct slots [(.closed key, d)]) := by
  obtain ⟨slots'', hfill, -⟩ := decodeMembers_known hkey hwhole
  rw [decodeMembers_cons]
  refine (Slots.fill_failsAtEnd hfill h).bind fun filled hfilled => ?_
  obtain ⟨slots'', rfl⟩ := Slots.fill_known hkey hfilled
  rw [decodeMembers_nil]
  exact failsAtEnd_ok slots''

theorem decodeMembers_cut {fs : List Field} {ms : List (String × Json)}
    (hfields : FieldsBreakOff fs ms) {ds : List (Quotation × Draft)} {ending : ObjectEnd}
    (h : MembersCut Json.Cut ms ds ending) {slots slots' : Slots fs}
    (hwhole : decodeMembers fs .direct slots (Json.membersDraft none ms) = .ok slots') :
    FailsAtEnd (decodeMembers fs .direct slots ds) := by
  induction h generalizing slots with
  | before =>
    rw [decodeMembers_nil]
    exact failsAtEnd_ok slots
  | key hq =>
    rw [decodeMembers]
    exact ((Quotation.read_cut hq).bind _).failsAtEnd
  | colon =>
    obtain ⟨⟨hkey, -⟩, -⟩ := List.forall_mem_cons.mp hfields
    refine decodeMembers_last hkey hwhole fun f _ _ _ _ => failsAtEnd_readField (by simp) ?_
    exact (decode_missing f.shape (.inr rfl)).failsAtEnd
  | inside hd =>
    obtain ⟨⟨hkey, hfield⟩, -⟩ := List.forall_mem_cons.mp hfields
    exact decodeMembers_last hkey hwhole fun f hf hname b hb => hfield f hf hname b hb _ hd
  | comma =>
    obtain ⟨⟨hkey, -⟩, -⟩ := List.forall_mem_cons.mp hfields
    refine decodeMembers_last hkey hwhole fun f _ _ b hb => ?_
    rw [hb]
    exact failsAtEnd_ok b
  | behind h ih =>
    obtain ⟨⟨hkey, -⟩, hrest⟩ := List.forall_mem_cons.mp hfields
    obtain ⟨slots'', hfill, hmembers⟩ := decodeMembers_known hkey hwhole
    rw [decodeMembers_cons, hfill]
    exact ih hrest hmembers

theorem findTag_head {α : Type} {name key : String} {dec : Draft → Decoded α}
    {found found' : Option α} {d : Draft} {rest : List (Quotation × Draft)}
    (h : findTag name dec .direct found ((.closed key, d) :: rest) = .ok found') :
    ∃ found'', findTag name dec .direct found'' rest = .ok found' ∧
      ∀ rest', findTag name dec .direct found ((.closed key, d) :: rest') =
        findTag name dec .direct found'' rest' := by
  by_cases hkey : key = name
  · subst hkey
    rw [findTag_self] at h
    cases found with
    | some t => cases h
    | none =>
      obtain ⟨t, ht, hrest⟩ := ok_of_bind h
      refine ⟨some t, hrest, fun rest' => ?_⟩
      rw [findTag_self, ht]
      rfl
  · rw [findTag_ne hkey] at h
    obtain ⟨_, hd, hrest⟩ := ok_of_bind h
    refine ⟨found, hrest, fun rest' => ?_⟩
    rw [findTag_ne hkey, hd]
    rfl

theorem findTag_last {α : Type} {name key : String} {dec : Draft → Decoded α}
    {found found' : Option α} {d d' : Draft} {rest : List (Quotation × Draft)}
    (hwhole : findTag name dec .direct found ((.closed key, d) :: rest) = .ok found')
    (htag : key = name → FailsAtEnd (dec d')) (hbuffer : d.fault? = none → IsEndFault d'.fault?) :
    FailsAtEnd (findTag name dec .direct found [(.closed key, d')]) := by
  by_cases hkey : key = name
  · subst hkey
    rw [findTag_self] at hwhole ⊢
    cases found with
    | some t => cases hwhole
    | none => exact (htag rfl).bind fun t _ => failsAtEnd_ok (some t)
  · rw [findTag_ne hkey] at hwhole ⊢
    obtain ⟨_, hd, -⟩ := ok_of_bind hwhole
    exact (hbuffer (ok_of_buffer hd)).failsAtEnd.bind fun _ _ => failsAtEnd_ok found

theorem findTag_cut {α : Type} {name : String} {dec : Draft → Decoded α} {ms : List (String × Json)}
    (hcolon : FailsAtEnd (dec (.gap (.colon true))))
    (htag : ∀ m ∈ ms, m.1 = name → ∀ d, m.2.Cut d → FailsAtEnd (dec d))
    {ds : List (Quotation × Draft)} {ending : ObjectEnd} (h : MembersCut Json.Cut ms ds ending)
    {found found' : Option α}
    (hwhole : findTag name dec .direct found (Json.membersDraft none ms) = .ok found') :
    FailsAtEnd (findTag name dec .direct found ds) := by
  induction h generalizing found with
  | before => exact failsAtEnd_ok found
  | key hq => exact ((Quotation.read_cut hq).bind _).failsAtEnd
  | colon => exact findTag_last hwhole (fun _ => hcolon) fun _ => isEndFault_some rfl
  | inside hd =>
    exact findTag_last hwhole (fun hkey => htag _ List.mem_cons_self hkey _ hd) fun hv =>
      hd.isEndFault hv
  | comma =>
    obtain ⟨found'', -, hhead⟩ := findTag_head hwhole
    rw [hhead]
    exact failsAtEnd_ok found''
  | behind h ih =>
    obtain ⟨found'', hrest, hhead⟩ := findTag_head hwhole
    rw [hhead]
    exact ih (fun m hm => htag m (List.mem_cons_of_mem _ hm)) hrest

theorem Json.Cut.of_list {items : List Json} {d : Draft} (h : (Json.list items).Cut d) :
    d = .gap .nothing ∨ ∃ ds, d = .list false ds .atEnd ∧ ItemsCut Cut items ds := by
  cases h with
  | nothing => exact .inl rfl
  | unfinished hleaf => cases hleaf
  | number hv => cases hv
  | list h => exact .inr ⟨_, rfl, h⟩

theorem Json.Cut.of_object {ms : List (String × Json)} {d : Draft} (h : (Json.object ms).Cut d) :
    d = .gap .nothing ∨ ∃ ds ending, d = .object false ds ending ∧ MembersCut Cut ms ds ending := by
  cases h with
  | nothing => exact .inl rfl
  | unfinished hleaf => cases hleaf
  | number hv => cases hv
  | object h => exact .inr ⟨_, _, rfl, h⟩

theorem Json.Cut.of_string {t : String} {d : Draft} (h : (Json.string t).Cut d) :
    d = .gap .nothing ∨ ∃ q, d = .string q ∧ q.content = .error .endInString := by
  cases h with
  | nothing => exact .inl rfl
  | unfinished _ hv => exact absurd rfl (hv t)
  | number hv => cases hv
  | string h => exact .inr ⟨_, rfl, h⟩

theorem checkDepth_bind_false {α : Type} (f : Unit → Decoded α) : checkDepth false >>= f = f () :=
  rfl

theorem breaksOff_object {s : Shape} {ms : List (String × Json)} {x : s.Carrier}
    (hs : s.isName = false)
    (h : ∀ y, decode s .direct ((Json.object ms).draft none) = .ok y → ∀ ds ending,
      MembersCut Json.Cut ms ds ending → FailsAtEnd (decode s .direct (.object false ds ending))) :
    BreaksOff s (.object ms) x := by
  refine ⟨fun hname => by simp [hs] at hname, fun y hwhole d hd => ?_⟩
  rcases hd.of_object with rfl | ⟨ds, ending, rfl, hcut⟩
  · exact (decode_missing s (.inl rfl)).failsAtEnd
  · exact h y hwhole ds ending hcut

theorem breaksOff_record (r : Record) (args : Args r.fields) {ms : List (String × Json)}
    (h : Aligned BreaksOff r.fields args ms) :
    BreaksOff (.record r) (.object ms) (r.build args) := by
  refine breaksOff_object rfl fun y hwhole ds ending hcut => ?_
  obtain ⟨-, slots, _, hslots, -⟩ := decode_record_ok hwhole
  rw [decode, checkDepth_bind_false]
  refine (decodeMembers_cut (h.fieldsBreakOff r.nodup_fields) hcut hslots).bind fun slots _ => ?_
  exact (hcut.endsEarly.bind _).failsAtEnd

theorem decodeTag_cut {α : Type} (all : List α) (tag : α → String) {t : String} {d : Draft}
    (h : (Json.string t).Cut d) : FailsAtEnd (decodeTag all tag .direct d) := by
  rcases h.of_string with rfl | ⟨q, rfl, hq⟩
  · exact (endsEarly_fault (f := .endInValue) rfl).failsAtEnd
  · rw [decodeTag]
    exact ((Quotation.read_cut hq).bind _).failsAtEnd

theorem decodeName_cut {α : Type} (all : List α) (tag : α → String) {t : String} {d : Draft}
    (h : (Json.string t).Cut d) : FailsAtEnd (decodeName all tag .direct d) := by
  rcases h.of_string with rfl | ⟨q, rfl, hq⟩
  · exact (endsEarly_fault (f := .endInValue) rfl).failsAtEnd
  · rw [decodeName]
    exact ((Quotation.read_cut hq).bind _).failsAtEnd

theorem tagged_cut {τ : Type} {name tag : String} {all : List τ} {tags : τ → String}
    {fs : List Field} {args : Args fs} {ms : List (String × Json)} (hapart : TagApart name fs)
    (h : Aligned BreaksOff fs args ms) {t : τ}
    (hwhole : requireTag name (decodeTag all tags .direct) .direct
      (Json.membersDraft none ((name, .string tag) :: ms)) .closed = .ok t)
    {ds : List (Quotation × Draft)} {ending : ObjectEnd}
    (hcut : MembersCut Json.Cut ((name, .string tag) :: ms) ds ending) :
    EndsEarly (requireTag name (decodeTag all tags .direct) .direct ds ending) := by
  obtain ⟨found, hfound, -⟩ := ok_of_bind hwhole
  have htag : ∀ m ∈ (name, Json.string tag) :: ms, m.1 = name → ∀ d, m.2.Cut d →
      FailsAtEnd (decodeTag all tags .direct d) := by
    refine List.forall_mem_cons.mpr ⟨fun _ d hd => decodeTag_cut all tags hd, fun m hm hname => ?_⟩
    exact absurd (h.keys_subset (List.mem_map_of_mem hm)) (hname ▸ hapart.foreign)
  have hcolon : FailsAtEnd (decodeTag all tags .direct (.gap (.colon true))) :=
    (endsEarly_fault (f := .endInObject) rfl).failsAtEnd
  exact (findTag_cut hcolon htag hcut hfound).endsEarly_bind fun _ _ => hcut.endsEarly.bind _

theorem breaksOff_kind (t : KindTag) (args : Args t.fields) {ms : List (String × Json)}
    (h : Aligned BreaksOff t.fields args ms) :
    BreaksOff .propertyKind (.object (("type", .string t.tag) :: ms)) (t.build args) := by
  refine breaksOff_object rfl fun y hwhole ds ending hcut => ?_
  rw [Json.draft, decode] at hwhole
  obtain ⟨t', htag, -⟩ := ok_of_bind (ok_of_checkDepth hwhole).2
  rw [decode, checkDepth_bind_false]
  exact ((tagged_cut t.apart h htag hcut).bind _).failsAtEnd

theorem breaksOff_struct (t : StructTag) (args : Args t.fields) {ms : List (String × Json)}
    (h : Aligned BreaksOff t.fields args ms) :
    BreaksOff .structValue (.object (("struct", .string t.tag) :: ms)) (t.build args) := by
  refine breaksOff_object rfl fun y hwhole ds ending hcut => ?_
  rw [Json.draft, decode] at hwhole
  obtain ⟨t', htag, -⟩ := ok_of_bind (ok_of_checkDepth hwhole).2
  rw [decode, checkDepth_bind_false]
  exact ((tagged_cut t.apart h htag hcut).bind _).failsAtEnd

theorem decodeTagged_cut {t : ValueTag} {v : Json} {a b : t.field.Carrier}
    (h : AsField BreaksOff t.field v a)
    (hwhole : (readField t.field (v.draft none) fun s => decode s .direct (v.draft none)) = .ok b)
    {ds : List (Quotation × Draft)} {ending : ObjectEnd}
    (hcut : MembersCut Json.Cut [("value", v)] ds ending) :
    FailsAtEnd (decodeTagged .direct ending (some t) ds) := by
  have hend {d : Draft} (hd : FailsAtEnd (readField t.field d fun s => decode s .direct d)) :
      FailsAtEnd (decodeTagged .direct .atEnd (some t) [(.closed "value", d)]) := by
    rw [decodeTagged_value]
    exact hd.bind fun x _ => (endsEarly_fault (f := .endInObject) rfl).failsAtEnd
  cases hcut with
  | before =>
    rw [decodeTagged]
    exact (endsEarly_fault (f := .endInObject) rfl).failsAtEnd
  | key hq =>
    rw [decodeTagged]
    exact ((Quotation.read_cut hq).bind _).failsAtEnd
  | colon => exact hend (failsAtEnd_readField (by simp) (decode_missing _ (.inr rfl)).failsAtEnd)
  | inside hd => exact hend (h.breaksOff b hwhole _ hd)
  | behind hcut =>
    cases hcut
    refine hend ?_
    rw [hwhole]
    exact failsAtEnd_ok b

theorem breaksOff_value (t : ValueTag) {v : Json} {a : t.field.Carrier}
    (h : AsField BreaksOff t.field v a) :
    BreaksOff .propertyValue (.object [("type", .string t.tag), ("value", v)]) (t.build a) := by
  refine breaksOff_object rfl fun y hwhole ds ending hcut => ?_
  have hname : decodeName ValueTag.all ValueTag.tag .direct (.string (.closed t.tag)) = .ok t :=
    decodeName_closed t.find_tag .direct
  have htype {d : Draft} {ending : ObjectEnd}
      (hd : FailsAtEnd (decodeName ValueTag.all ValueTag.tag .direct d))
      (hending : EndsEarly (checkFault ending.fault?)) :
      FailsAtEnd (decodeTagged .direct ending none [(.closed "type", d)]) := by
    rw [decodeTagged_type]
    refine hd.bind fun t' _ => ?_
    rw [decodeTagged]
    exact (hending.bind _).failsAtEnd
  obtain ⟨-, b, hread, -⟩ := decode_value_ok hwhole
  rw [decode, checkDepth_bind_false]
  have hending := hcut.endsEarly
  cases hcut with
  | before =>
    rw [decodeTagged]
    exact (hending.bind _).failsAtEnd
  | key hq =>
    rw [decodeTagged]
    exact ((Quotation.read_cut hq).bind _).failsAtEnd
  | colon => exact htype (endsEarly_fault (f := .endInObject) rfl).failsAtEnd hending
  | inside hd => exact htype (decodeName_cut _ _ hd) hending
  | comma =>
    refine htype ?_ hending
    rw [Json.draft, hname]
    exact failsAtEnd_ok t
  | behind hcut =>
    rw [decodeTagged_type, Json.draft, hname]
    exact decodeTagged_cut h hread hcut

end Pseudocode
