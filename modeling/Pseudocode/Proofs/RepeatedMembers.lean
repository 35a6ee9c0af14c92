import Pseudocode.Proofs.SingleMembers

/-! Members that are repeated. What is decoded of a dump reaches every place
that the dump is read at, so that a member that is repeated at one of them is
noticed. -/

namespace Pseudocode

theorem decodeTag_eq {α : Type} {all : List α} {tag : α → String} {mode : ReadMode} {d : Draft}
    {t t' : α} (h : decodeTag all tag mode d = .ok t)
    (h' : decodeTag all tag .buffered d = .ok t') : t' = t := by
  have hkept := decodeTag_kept (.inr rfl : mode.Before .buffered) (toOption_eq_some.mpr h)
  exact Except.ok.inj (h'.symm.trans (toOption_eq_some.mp hkept))

theorem decodeName_eq {α : Type} {all : List α} {tag : α → String} {mode : ReadMode} {d : Draft}
    {t t' : α} (h : decodeName all tag mode d = .ok t)
    (h' : decodeName all tag .buffered d = .ok t') : t' = t := by
  have hkept := decodeName_kept (.inr rfl : mode.Before .buffered) (toOption_eq_some.mpr h)
  exact Except.ok.inj (h'.symm.trans (toOption_eq_some.mp hkept))

namespace Shape

section Objects

variable (members : List (Quotation × Draft))

/-- The fields that are looked for in an object: those of a record, those of a
tagged value by its tag, and the offset of an expression beside them. A tag is
decoded as if it had been read to its end: that accepts all tags that are accepted
while the text is read. -/
inductive Asks : Shape → Field → Prop
  | record {r : Record} {f : Field} (hf : f ∈ r.fields) : Asks (.record r) f
  | kind {d : Draft} {t : KindTag} {f : Field} (hd : d ∈ under "type" members)
      (ht : decodeTag KindTag.all KindTag.tag .buffered d = .ok t) (hf : f ∈ t.fields) :
      Asks .propertyKind f
  | struct {d : Draft} {t : StructTag} {f : Field} (hd : d ∈ under "struct" members)
      (ht : decodeTag StructTag.all StructTag.tag .buffered d = .ok t) (hf : f ∈ t.fields) :
      Asks .structValue f
  | value {d : Draft} {t : ValueTag} (hd : d ∈ under "type" members)
    (ht : decodeName ValueTag.all ValueTag.tag .buffered d = .ok t) : Asks .propertyValue t.field
  | operand {d : Draft} {op : Opcode} {f : Field} (hd : d ∈ under "inst" members)
    (hop : decodeTag Opcode.all Opcode.tag .buffered d = .ok op) (hf : f ∈ op.fields) : Asks .expr f
  | index : Asks .expr indexField

/-- The names in an object that mean something: that of its tag, that of the value
beside the tag, and those of the fields that are looked for. -/
inductive Knows : Shape → String → Prop
  | tag {s : Shape} {name : String} (h : s.tagName = some name) : Knows s name
  | value : Knows .propertyValue "value"
  | field {s : Shape} {f : Field} (h : s.Asks members f) : Knows s f.name

end Objects

/-- The fields that the items of a list are read as, and those items. -/
inductive Lists : Shape → List Draft → List Field → List Draft → Prop
  | pair {first second : Shape} {items : List Draft} :
    Lists (.pair first second) items [.required "" first, .required "" second] items
  | record {r : Record} {items : List Draft} : Lists (.record r) items r.fields items
  | kind {d : Draft} {rest : List Draft}
      {t : KindTag} (ht : decodeTag KindTag.all KindTag.tag .buffered d = .ok t) :
      Lists .propertyKind (d :: rest) t.fields rest
  | struct {d : Draft} {rest : List Draft}
      {t : StructTag} (ht : decodeTag StructTag.all StructTag.tag .buffered d = .ok t) :
      Lists .structValue (d :: rest) t.fields rest
  | value {d : Draft} {rest : List Draft}
      {t : ValueTag} (ht : decodeTag ValueTag.all ValueTag.tag .buffered d = .ok t) :
      Lists .propertyValue (d :: rest) [t.field] rest

end Shape

/-- Whether a draft that is read in a shape has a part that is read in a shape of
its own. -/
inductive HasPart : Shape × Draft → Shape × Draft → Prop
  | item {s : Shape} {tooDeep : Bool} {items : List Draft} {ending : ListEnd} {d : Draft}
      (hd : d ∈ items) : HasPart (.list s, .list tooDeep items ending) (s, d)
  | element {s : Shape} {tooDeep : Bool} {items rest : List Draft} {ending : ListEnd}
      {fs : List Field} {f : Field} {d : Draft} (hfs : s.Lists items fs rest)
      (hd : (f, d) ∈ fs.zip rest) : HasPart (s, .list tooDeep items ending) (f.shape, d)
  | member {s : Shape} {tooDeep : Bool} {members : List (Quotation × Draft)} {ending : ObjectEnd}
      {f : Field} {d : Draft} (hf : s.Asks members f) (hd : d ∈ under f.name members) :
      HasPart (s, .object tooDeep members ending) (f.shape, d)

/-- What holds of an object that is decoded: no name that it knows is repeated,
and its fields are accepted. -/
structure Settled (s : Shape) (members : List (Quotation × Draft)) : Prop where
  tag : ∀ name, s.tagName = some name → (under name members).length ≤ 1
  value : s = .propertyValue → (under "value" members).length ≤ 1
  field : ∀ f, s.Asks members f → Once f.name members (Accepted f.shape)

theorem Settled.single {s : Shape} {members : List (Quotation × Draft)} (h : Settled s members)
    {name : String} (hname : s.Knows members name) : (under name members).length ≤ 1 := by
  cases hname with
  | tag htag => exact h.tag name htag
  | value => exact h.value rfl
  | field hf => exact (h.field _ hf).single

section Settling

variable {mode : ReadMode} {tooDeep : Bool} {members : List (Quotation × Draft)}
  {ending : ObjectEnd}

theorem settled_record {r : Record} {y : r.Carrier}
    (h : decode (.record r) mode (.object tooDeep members ending) = .ok y) :
    Settled (.record r) members := by
  rw [decode] at h
  obtain ⟨_, -, h⟩ := ok_of_bind h
  obtain ⟨slots, hslots, -⟩ := ok_of_bind h
  refine ⟨fun name hname => (by cases hname), fun hs => (by cases hs), fun f hf => ?_⟩
  cases hf with
  | record hf => exact (decodeMembers_once r.nodup_fields hf hslots).2

theorem settled_kind {y : PropertyKind}
    (h : decode .propertyKind mode (.object tooDeep members ending) = .ok y) :
    Settled .propertyKind members := by
  rw [decode] at h
  obtain ⟨_, -, h⟩ := ok_of_bind h
  obtain ⟨t, htag, h⟩ := ok_of_bind h
  obtain ⟨slots, hslots, -⟩ := ok_of_bind h
  have honce := requireTag_once htag
  refine ⟨fun name hname => Option.some.inj hname ▸ honce.single, fun hs =>
    (by cases hs), fun f hf => ?_⟩
  cases hf with
  | kind hd ht hf =>
    obtain rfl := decodeTag_eq (honce.holds _ hd) ht
    exact (decodeMembers_once (KindTag.apart _).nodup hf hslots).2

theorem settled_struct {y : StructValue}
    (h : decode .structValue mode (.object tooDeep members ending) = .ok y) :
    Settled .structValue members := by
  rw [decode] at h
  obtain ⟨_, -, h⟩ := ok_of_bind h
  obtain ⟨t, htag, h⟩ := ok_of_bind h
  obtain ⟨slots, hslots, -⟩ := ok_of_bind h
  have honce := requireTag_once htag
  refine ⟨fun name hname => Option.some.inj hname ▸ honce.single, fun hs =>
    (by cases hs), fun f hf => ?_⟩
  cases hf with
  | struct hd ht hf =>
    obtain rfl := decodeTag_eq (honce.holds _ hd) ht
    exact (decodeMembers_once (StructTag.apart _).nodup hf hslots).2

theorem settled_value {y : PropertyValue}
    (h : decode .propertyValue mode (.object tooDeep members ending) = .ok y) :
    Settled .propertyValue members := by
  rw [decode] at h
  obtain ⟨_, -, h⟩ := ok_of_bind h
  obtain ⟨t, -, htag, hvalue⟩ := decodeTagged_once h
  refine ⟨fun name hname => Option.some.inj hname ▸ htag.single, fun _ =>
    hvalue.single, fun f hf => ?_⟩
  cases hf with
  | value hd ht =>
    obtain rfl := decodeName_eq (htag.holds _ hd) ht
    rw [ValueTag.field_name]
    exact hvalue

/-- The members of an expression are gone through three times: for its offset, for
its instruction, and for the operands that the instruction has. -/
theorem settled_expr {y : Expr} (h : decode .expr mode (.object tooDeep members ending) = .ok y) :
    Settled .expr members := by
  rw [decode] at h
  obtain ⟨_, -, h⟩ := ok_of_bind h
  obtain ⟨index, hindex, h⟩ := ok_of_bind h
  obtain ⟨_, -, h⟩ := ok_of_bind h
  obtain ⟨op, htag, h⟩ := ok_of_bind h
  obtain ⟨slots, hslots, -⟩ := ok_of_bind h
  have honce := requireTag_once htag
  refine ⟨fun name hname => Option.some.inj hname ▸ honce.single, fun hs =>
    (by cases hs), fun f hf => ?_⟩
  cases hf with
  | operand hd hop hf =>
    obtain rfl := decodeTag_eq (honce.holds _ hd) hop
    exact (decodeMembers_once (Opcode.apart _).1.nodup hf hslots).2
  | index =>
    refine (findTag_once hindex).2.imp fun d hd => ?_
    obtain ⟨i, hi, -⟩ := hd
    exact .inr ⟨mode, i, by rwa [decode]⟩

theorem settled {s : Shape} {y : s.Carrier}
    (h : decode s mode (.object tooDeep members ending) = .ok y) : Settled s members := by
  cases s with
  | record => exact settled_record h
  | propertyKind => exact settled_kind h
  | structValue => exact settled_struct h
  | propertyValue => exact settled_value h
  | expr => exact settled_expr h
  | _ => exact ⟨fun _ hname => (by cases hname), fun hs => (by cases hs), fun _ hf => (by cases hf)⟩

end Settling

theorem accepted_elements {s : Shape} {mode : ReadMode} {tooDeep : Bool} {items rest : List Draft}
    {ending : ListEnd} {fs : List Field} (hfs : s.Lists items fs rest) {y : s.Carrier}
    (h : decode s mode (.list tooDeep items ending) = .ok y) :
    ∀ p ∈ fs.zip rest, Accepted p.1.shape p.2 := by
  cases hfs with
  | pair | record =>
    rw [decode] at h
    obtain ⟨_, -, h⟩ := ok_of_bind h
    obtain ⟨_, hargs, -⟩ := ok_of_bind h
    exact decodeElements_accepted hargs
  | kind ht | struct ht =>
    rw [decode] at h
    obtain ⟨_, -, h⟩ := ok_of_bind h
    obtain ⟨t, htag, h⟩ := ok_of_bind h
    obtain ⟨_, -, h⟩ := ok_of_bind h
    obtain ⟨_, hargs, -⟩ := ok_of_bind h
    obtain rfl := decodeTag_eq htag ht
    exact decodeElements_accepted hargs
  | value ht =>
    rw [decode] at h
    obtain ⟨_, -, h⟩ := ok_of_bind h
    rw [decodeTaggedItems] at h
    obtain ⟨t, htag, h⟩ := ok_of_bind h
    obtain rfl := decodeTag_eq htag ht
    cases rest with
    | nil => simp
    | cons d rest =>
      rw [decodeTaggedItems] at h
      obtain ⟨a, hread, -⟩ := ok_of_bind h
      simpa using accepted_field hread

theorem HasPart.accepted {p q : Shape × Draft} (h : HasPart p q) (hp : Accepted p.1 p.2) :
    Accepted q.1 q.2 := by
  cases h with
  | item hd =>
    obtain ⟨mode, y, hy⟩ := hp.decoded (by simp)
    rw [decode] at hy
    obtain ⟨_, -, hy⟩ := ok_of_bind hy
    obtain ⟨ys, hitems, -⟩ := ok_of_bind hy
    exact decodeItems_accepted hitems _ hd
  | element hfs hd =>
    obtain ⟨mode, y, hy⟩ := hp.decoded (by simp)
    exact accepted_elements hfs hy _ hd
  | member hf hd =>
    obtain ⟨mode, y, hy⟩ := hp.decoded (by simp)
    exact ((settled hy).field _ hf).holds _ hd

/-- What is decoded is decoded at every place that it is read at. -/
theorem accepted_of_parts {p q : Shape × Draft} (h : Relation.ReflTransGen HasPart p q)
    (hp : Accepted p.1 p.2) : Accepted q.1 q.2 := by
  induction h with
  | refl => exact hp
  | tail _ hpart ih => exact hpart.accepted ih

inductive DumpPart : Draft → Shape × Draft → Prop
  | mk {tooDeep : Bool} {members : List (Quotation × Draft)} {ending : ObjectEnd}
      {d : Draft} {p : Shape × Draft} (t : DumpTag) (hd : d ∈ under t.tag members)
      (hparts : Relation.ReflTransGen HasPart (.record t.record, d) p) :
      DumpPart (.object tooDeep members ending) p

/-- Whether some object that is read in a dump repeats a name that it knows. The
outermost object knows every name. -/
inductive Repeats : Draft → Prop
  | outermost {tooDeep : Bool} {members : List (Quotation × Draft)}
      {ending : ObjectEnd} {name : String} (h : 2 ≤ (under name members).length) :
      Repeats (.object tooDeep members ending)
  | inside {document : Draft} {s : Shape} {tooDeep : Bool}
      {members : List (Quotation × Draft)} {ending : ObjectEnd} {name : String}
      (hpart : DumpPart document (s, .object tooDeep members ending)) (hname : s.Knows members name)
      (h : 2 ≤ (under name members).length) : Repeats document

theorem DumpPart.accepted {document : Draft} {p : Shape × Draft} (h : DumpPart document p)
    {dump : ScriptDump} (hdump : decodeDump document = .ok dump) : Accepted p.1 p.2 := by
  obtain ⟨t, hd, hparts⟩ := h
  obtain ⟨t', tooDeep, key, d', ending, x, hdocument, hkey, hx, -⟩ := decodeDump_ok hdump
  cases hdocument
  by_cases htag : t'.tag = t.tag
  · obtain rfl := DumpTag.tag_injective htag
    rw [under_cons_self hkey] at hd
    obtain rfl := List.mem_singleton.mp hd
    exact accepted_of_parts hparts (.inr ⟨.direct, x, hx⟩)
  · rw [under_cons_ne hkey htag] at hd
    cases hd

theorem Repeats.not_decoded {document : Draft} (h : Repeats document) (dump : ScriptDump) :
    decodeDump document ≠ .ok dump := by
  intro hdump
  cases h with
  | @outermost _ members _ name htwice =>
    obtain ⟨t, _, key, d, _, x, hdocument, -⟩ := decodeDump_ok hdump
    cases hdocument
    have hone : (under name [(key, d)]).length ≤ [(key, d)].length := by
      rw [under, List.length_map]
      exact List.length_filter_le _ _
    simp only [List.length_singleton] at hone
    omega
  | inside hpart hname htwice =>
    obtain ⟨mode, y, hy⟩ := (hpart.accepted hdump).decoded (by simp)
    have hone := (settled hy).single hname
    omega

/-- A dump in which some object repeats a name that it knows is refused. -/
theorem ScriptDump.parse_repeated {text : String} (h : Repeats (Document.ofText text).value) :
    ∃ e, ScriptDump.parse text = .error (.decode e) := by
  cases hdump : decodeDump (Document.ofText text).value with
  | error e =>
    exact ⟨e, by simp [parse, ofJson, decodeAll, hdump, bind, Except.bind, Except.mapError]⟩
  | ok dump => exact absurd hdump (h.not_decoded dump)

/-- A value that comes once in front of its tag and once behind it. -/
theorem ScriptDump.parse_repeated_aroundTag :
    let value :=
      Json.object [("value", .bool true), ("type", .string "Bool"), ("value", .bool true)]
    let kind := Json.object [("kind", .object [("type", .string "Bool")])]
    let property := Json.object [("property", kind), ("default_value", value)]
    let door := Json.object [("name", .string "Door"), ("properties", .list [property])]
    ∃ e, ScriptDump.parse (Json.object [("class", door)]).text = .error (.decode e) := by
  intro value kind property door
  have hproperties : HasPart (.record .class_, door.draft (some 126))
      (.list (.record .classProperty), (Json.list [property]).draft (some 125)) :=
    .member (f := Record.class_.fields[3]) (.record (List.getElem_mem _)) (.head _)
  have hproperty : HasPart (.list (.record .classProperty), (Json.list [property]).draft (some 125))
      (.record .classProperty, property.draft (some 124)) := .item (.head _)
  have hvalue : HasPart (.record .classProperty, property.draft (some 124))
      (.propertyValue, value.draft (some 123)) :=
    .member (f := Record.classProperty.fields[1]) (.record (List.getElem_mem _)) (.head _)
  have hpart : DumpPart ((Json.object [("class", door)]).draft (some depthLimit))
      (.propertyValue, value.draft (some 123)) :=
    .mk .class_ (.head _) (((Relation.ReflTransGen.single hproperties).tail hproperty).tail hvalue)
  have htwice : Repeats (Document.ofText (Json.object [("class", door)]).text).value := by
    rw [Json.document_text]
    exact .inside hpart .value (by decide)
  exact ScriptDump.parse_repeated htwice

end Pseudocode
