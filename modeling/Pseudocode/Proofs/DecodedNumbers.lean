import Pseudocode.Proofs.SpelledFields

/-! Numbers in decoded values. Every number of 64 bits in a dump that is decoded
is one that a text has spelled. -/

namespace Pseudocode

theorem value_spelled {d : Draft} (h : d.givesSpelled) (t : ValueTag) (mode : ReadMode) :
    Gives (do return t.build (← readField t.field d fun s => decode s mode d))
      (Spelled .propertyValue) :=
  (h.field t.field mode).bind fun _ ha => .ok (spelled_value ha)

theorem seekTag_spelled (mode : ReadMode) (ending : ObjectEnd)
    {read : ValueTag → Decoded PropertyValue} (hread : ∀ t, Gives (read t) (Spelled .propertyValue))
    (members : List (Quotation × Draft)) :
    Gives (seekTag mode ending read members) (Spelled .propertyValue) := by
  induction members with
  | nil =>
    rw [seekTag]
    exact .next fun _ => .failWith _
  | cons m members ih =>
    rw [seekTag]
    refine .next fun name => ?_
    split
    · refine .next fun t => (hread t).bind fun v hv => ?_
      exact .next fun _ => .next fun _ => .ok hv
    · split
      · exact .failWith _
      · exact .next fun _ => ih

theorem decodeTagged_spelled (mode : ReadMode) (ending : ObjectEnd) (tag : Option ValueTag)
    {members : List (Quotation × Draft)} (h : ∀ m ∈ members, m.2.givesSpelled) :
    Gives (decodeTagged mode ending tag members) (Spelled .propertyValue) := by
  induction members generalizing tag with
  | nil =>
    cases tag with
    | none =>
      rw [decodeTagged]
      exact .next fun _ => .failWith _
    | some t =>
      rw [decodeTagged]
      refine .next fun _ => ?_
      cases ht : t.field.absent with
      | none => exact .failWith _
      | some a => exact .ok (spelled_value (fieldSpelled_default (emptyDefault_value t) ht))
  | cons m members ih =>
    obtain ⟨key, d⟩ := m
    have hd := h (key, d) List.mem_cons_self
    have hrest : ∀ m ∈ members, m.2.givesSpelled := fun m hm => h m (List.mem_cons_of_mem _ hm)
    cases tag with
    | none =>
      rw [decodeTagged]
      refine .next fun name => ?_
      split
      · exact .next fun t => ih (some t) hrest
      · split
        · exact .next fun _ =>
            seekTag_spelled mode ending (fun t => value_spelled hd t .buffered) members
        · exact .next fun _ => ih none hrest
    | some t =>
      rw [decodeTagged]
      refine .next fun name => ?_
      split
      · exact .failWith _
      · split
        · refine (hd.field t.field mode).bind fun a ha => ?_
          exact .next fun _ => .next fun _ => .ok (spelled_value ha)
        · exact .next fun _ => ih (some t) hrest

theorem decodeTaggedItems_spelled (mode : ReadMode) (ending : ListEnd) (tag : Option ValueTag)
    {items : List Draft} (h : ∀ d ∈ items, d.givesSpelled) :
    Gives (decodeTaggedItems mode ending tag items) (Spelled .propertyValue) := by
  induction items generalizing tag with
  | nil =>
    rw [decodeTaggedItems]
    exact .next fun _ => .failWith _
  | cons d items ih =>
    cases tag with
    | none =>
      rw [decodeTaggedItems]
      exact .next fun t => ih (some t) fun e he => h e (List.mem_cons_of_mem _ he)
    | some t =>
      rw [decodeTaggedItems]
      refine ((h d List.mem_cons_self).field t.field mode).bind fun a ha => ?_
      exact .next fun _ => .ok (spelled_value ha)

theorem decodeWide_spelled {d : Draft} (h : d.fits) : Gives (decodeWide d) (Spelled .wide) := by
  unfold decodeWide
  split
  · exact .ok (spelled_wide (Binary64.isFinite_ofInt h))
  · exact .ok (spelled_wide h)
  · exact .mismatch _ _

theorem givesSpelled_list {items : List Draft} (hitems : ∀ d ∈ items, d.givesSpelled)
    (tooDeep : Bool) (ending : ListEnd) : (Draft.list tooDeep items ending).givesSpelled := by
  intro s mode
  cases s with
  | list item =>
    rw [decode]
    refine .next fun _ => (decodeItems_spelled item mode hitems).bind fun xs hxs => ?_
    exact .next fun _ => .ok (spelled_list hxs)
  | pair first second =>
    rw [decode]
    refine .next fun _ => (decodeElements_spelled _ _ _ _ (by rfl) hitems).bind fun args hargs => ?_
    have ha : Spelled first args.1 := fun v hv => hargs.1 v (.plain hv)
    have hb : Spelled second args.2.1 := fun v hv => hargs.2.1 v (.plain hv)
    exact .ok (spelled_pair ha hb)
  | record r =>
    rw [decode]
    refine .next fun _ =>
      (decodeElements_spelled _ _ _ _ (emptyDefault_record r) hitems).bind fun args hargs => ?_
    exact .ok (spelled_record hargs)
  | propertyKind =>
    cases items with
    | nil =>
      rw [decode]
      exact .next fun _ => .next fun _ => .failWith _
    | cons d rest =>
      rw [decode]
      refine .next fun _ => .next fun t => .next fun _ => ?_
      exact (decodeElements_spelled _ _ _ _ (emptyDefault_kind t)
        (List.forall_mem_cons.mp hitems).2).bind fun args hargs => .ok (spelled_kind hargs)
  | structValue =>
    cases items with
    | nil =>
      rw [decode]
      exact .next fun _ => .next fun _ => .failWith _
    | cons d rest =>
      rw [decode]
      refine .next fun _ => .next fun t => .next fun _ => ?_
      exact (decodeElements_spelled _ _ _ _ (emptyDefault_struct t)
        (List.forall_mem_cons.mp hitems).2).bind fun args hargs => .ok (spelled_struct hargs)
  | propertyValue =>
    rw [decode]
    exact .next fun _ => decodeTaggedItems_spelled mode ending none hitems
  | expr =>
    rw [decode]
    · exact .mismatch _ _
    · simp
  | wide =>
    rw [decode]
    exact .mismatch _ _
  | _ => exact fun x _ => spelled_simple rfl x

theorem givesSpelled_object {members : List (Quotation × Draft)}
    (hmembers : ∀ m ∈ members, m.2.givesSpelled) (tooDeep : Bool) (ending : ObjectEnd) :
    (Draft.object tooDeep members ending).givesSpelled := by
  intro s mode
  cases s with
  | list | pair =>
    rw [decode]
    · exact .mismatch _ _
    · simp
  | record r =>
    rw [decode]
    refine .next fun _ =>
      (decodeFields_spelled (emptyDefault_record r) mode hmembers).bind fun slots hslots => ?_
    exact .next fun _ => hslots.bind fun args hargs => .ok (spelled_record hargs)
  | propertyKind =>
    rw [decode]
    refine .next fun _ => .next fun t => ?_
    refine (decodeFields_spelled (emptyDefault_kind t) .buffered hmembers).bind fun slots hslots =>
      ?_
    exact hslots.bind fun args hargs => .ok (spelled_kind hargs)
  | structValue =>
    rw [decode]
    refine .next fun _ => .next fun t => ?_
    refine (decodeFields_spelled (emptyDefault_struct t) .buffered hmembers).bind
      fun slots hslots => ?_
    exact hslots.bind fun args hargs => .ok (spelled_struct hargs)
  | propertyValue =>
    rw [decode]
    exact .next fun _ => decodeTagged_spelled mode ending none hmembers
  | expr =>
    rw [decode]
    refine .next fun _ => .next fun index => .next fun _ => .next fun op => ?_
    refine (decodeFields_spelled (emptyDefault_opcode op) .buffered hmembers).bind
      fun slots hslots => ?_
    exact hslots.bind fun args hargs => .ok (spelled_expr hargs _)
  | wide =>
    rw [decode]
    exact .mismatch _ _
  | _ => exact fun x _ => spelled_simple rfl x

/-- A list or an object has no more numbers than its parts. -/
theorem Draft.givesSpelled_of_fits (d : Draft) (h : d.fits) : d.givesSpelled := by
  induction d using Draft.induction with
  | list tooDeep items ending ih =>
    exact givesSpelled_list (fun d hd => ih d hd (itemsFit_iff.mp h d hd)) tooDeep ending
  | object tooDeep members ending ih =>
    exact givesSpelled_object (fun m hm => ih m hm (membersFit_iff.mp h m hm)) tooDeep ending
  | _ =>
    intro s mode
    cases s with
    | wide =>
      rw [decode]
      exact decodeWide_spelled h
    | list | pair | record | propertyKind | structValue | propertyValue | expr =>
      rw [decode]
      · exact .mismatch _ _
      all_goals simp
    | _ => exact fun x _ => spelled_simple rfl x

theorem decodeDump_spelled {document : Draft} (h : document.fits) :
    Gives (decodeDump document) fun dump => dump.json.everyLeaf Json.hasSpelling := by
  intro dump hdump
  obtain ⟨t, tooDeep, key, d, ending, x, rfl, -, hx, rfl⟩ := decodeDump_ok hdump
  have hd : Spelled (.record t.record) x :=
    d.givesSpelled_of_fits h.1 (.record t.record) .direct x hx
  cases t with
  | class_ => exact Json.everyLeaf_object.mpr (List.forall_mem_singleton.mpr (hd x.json x.written))
  | function =>
    exact Json.everyLeaf_object.mpr (List.forall_mem_singleton.mpr (hd x.json x.written))

/-- Every number of 64 bits in a dump that a text holds can be written. -/
theorem ScriptDump.spelled_of_ofJson {text : String} {d : ScriptDump}
    (h : ScriptDump.ofJson text = .ok d) : d.json.everyLeaf Json.hasSpelling := by
  have hgives : Gives (ScriptDump.ofJson text) fun d => d.json.everyLeaf Json.hasSpelling := by
    refine (decodeDump_spelled (Document.ofText_fits text)).bind fun d hd => ?_
    split
    · exact .error _
    · exact .ok hd
  exact hgives d h

end Pseudocode
