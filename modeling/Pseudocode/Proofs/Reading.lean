import Pseudocode.Proofs.Encoding

/-! What values are read as, whatever the order of their members. An object is
read by looking its members up: the tag says which fields to look for. Decoding,
which goes through the members as they come, agrees with that. -/

namespace Pseudocode

/-- The value under a name, if there is one; nothing at all if the name is repeated. -/
def sole {α : Type} (name : String) (ms : List (String × α)) : Option (Option α) :=
  match ms.filter fun m => m.1 = name with
  | [] => some none
  | [m] => some (some m.2)
  | _ => none

section Sole

variable {α β : Type} {name key : String} {v w : α} {ms ms' pre post : List (String × α)}

@[simp] theorem sole_nil : sole name ([] : List (String × α)) = some none := rfl

theorem sole_cons_ne (h : key ≠ name) : sole name ((key, v) :: ms) = sole name ms := by
  rw [sole, sole, List.filter_cons_of_neg (by simpa using h)]

theorem filter_name_eq_nil : ms.filter (fun m => m.1 = name) = [] ↔ name ∉ ms.map Prod.fst := by
  simp only [List.filter_eq_nil_iff, List.mem_map, not_exists, not_and, decide_eq_true_eq]

theorem sole_eq_none_iff : sole name ms = some none ↔ name ∉ ms.map Prod.fst := by
  rw [← filter_name_eq_nil, sole]
  cases ms.filter fun m => m.1 = name with
  | nil => simp
  | cons m rest => cases rest <;> simp

theorem sole_cons_self :
    sole name ((name, v) :: ms) = if name ∈ ms.map Prod.fst then none else some (some v) := by
  rw [sole, List.filter_cons_of_pos (by simp)]
  by_cases h : name ∈ ms.map Prod.fst
  · rw [if_pos h]
    cases hms : ms.filter fun m => m.1 = name with
    | nil => exact absurd h (filter_name_eq_nil.mp hms)
    | cons m rest => rfl
  · rw [if_neg h, filter_name_eq_nil.mpr h]

theorem sole_perm (h : ms.Perm ms') : sole name ms = sole name ms' := by
  have hfilter := h.filter fun m => m.1 = name
  unfold sole
  cases hms : ms.filter fun m => m.1 = name with
  | nil =>
    rw [hms] at hfilter
    rw [hfilter.nil_eq.symm]
  | cons m rest =>
    rw [hms] at hfilter
    cases rest with
    | nil => rw [List.singleton_perm.mp hfilter]
    | cons m' rest =>
      have hlength := hfilter.length_eq
      cases hms' : ms'.filter fun m => m.1 = name with
      | nil => simp [hms'] at hlength
      | cons n rest' =>
        cases rest' with
        | nil => simp [hms'] at hlength
        | cons n' rest' => rfl

theorem sole_insert_ne (h : key ≠ name) :
    sole name (pre ++ (key, v) :: post) = sole name (pre ++ post) := by
  rw [sole_perm List.perm_middle, sole_cons_ne h]

theorem sole_insert_self :
    sole name (pre ++ (name, v) :: post) = if name ∈ (pre ++ post).map Prod.fst then none
      else some (some v) := by
  rw [sole_perm List.perm_middle, sole_cons_self]

theorem sole_map (f : α → β) :
    sole name (ms.map fun m => (m.1, f m.2)) = (sole name ms).map (Option.map f) := by
  have hfilter : (ms.map fun m => (m.1, f m.2)).filter (fun m => m.1 = name) =
      (ms.filter fun m => m.1 = name).map fun m => (m.1, f m.2) := by
    rw [List.filter_map]
    rfl
  unfold sole
  rw [hfilter]
  cases ms.filter fun m => m.1 = name with
  | nil => rfl
  | cons m rest => cases rest <;> rfl

theorem sole_mem (h : sole name ms = some (some v)) : (name, v) ∈ ms := by
  unfold sole at h
  cases hms : ms.filter fun m => m.1 = name with
  | nil => simp [hms] at h
  | cons m rest =>
    cases rest with
    | cons m' rest => simp [hms] at h
    | nil =>
      have hmem : m ∈ ms.filter fun m => m.1 = name := by rw [hms]; exact List.mem_singleton_self m
      rw [hms] at h
      cases h
      obtain ⟨hm, hname⟩ := List.mem_filter.mp hmem
      have hkey : m.1 = name := by simpa using hname
      exact hkey ▸ hm

end Sole

/-- The fields that an object or a list is read as, and what is made of them. -/
structure Form (α : Type) where
  fields : List Field
  build : Args fields → α

def tagOf {τ : Type} (name : String) (dec : Draft → Decoded τ) (ms : List (String × Json)) :
    Option τ :=
  match sole name ms with
  | some (some v) => (dec (v.draft none)).toOption
  | _ => none

namespace Shape

/-- Under which name the tag of a value stands. -/
def tagName : Shape → Option String
  | propertyKind => some "type"
  | structValue => some "struct"
  | propertyValue => some "type"
  | expr => some "inst"
  | _ => none

abbrev indexField : Field := .defaulted "statement_index" (.int .u32) 0

/-- The form of an object that is read as a record or a tagged value. -/
def form? : (s : Shape) → ReadMode → List (String × Json) → Option (Form s.Carrier)
  | record r, _, _ => some ⟨r.fields, r.build⟩
  | propertyKind, mode, ms =>
    (tagOf "type" (decodeTag KindTag.all KindTag.tag mode) ms).map fun t => ⟨t.fields, t.build⟩
  | structValue, mode, ms =>
    (tagOf "struct" (decodeTag StructTag.all StructTag.tag mode) ms).map fun t =>
      ⟨t.fields, t.build⟩
  | propertyValue, mode, ms =>
    (tagOf "type" (decodeName ValueTag.all ValueTag.tag mode) ms).map fun t =>
      ⟨[t.field], fun a => t.build a.1⟩
  | expr, _, ms =>
    (tagOf "inst" (decodeTag Opcode.all Opcode.tag .buffered) ms).map fun op =>
      ⟨indexField :: op.fields, fun a => ⟨a.1, op.build a.2⟩⟩
  | _, _, _ => none

/-- The form of a list that is read as a record, a tagged value or a pair, and how
many items stand in front of its fields. -/
def listForm? : (s : Shape) → ReadMode → List Json → Option (Nat × Form s.Carrier)
  | pair first second, _, _ =>
    some (0, ⟨[.required "" first, .required "" second], fun a => (a.1, a.2.1)⟩)
  | record r, _, _ => some (0, ⟨r.fields, r.build⟩)
  | propertyKind, mode, v :: _ =>
    (decodeTag KindTag.all KindTag.tag mode (v.draft none)).toOption.map fun t =>
      (1, ⟨t.fields, t.build⟩)
  | structValue, mode, v :: _ =>
    (decodeTag StructTag.all StructTag.tag mode (v.draft none)).toOption.map fun t =>
      (1, ⟨t.fields, t.build⟩)
  | propertyValue, mode, v :: _ =>
    (decodeTag ValueTag.all ValueTag.tag mode (v.draft none)).toOption.map fun t =>
      (1, ⟨[⟨t.field.name, t.field.shape, t.field.nullable, none⟩], fun a => t.build a.1⟩)
  | _, _, _ => none

/-- In which shape an item is read that stands in a list behind some others. -/
def itemShape? (s : Shape) (mode : ReadMode) (before : List Json) : Option Shape :=
  match s with
  | list item => some item
  | s =>
    (s.listForm? mode before).bind fun (skipped, form) =>
      form.fields[before.length - skipped]?.map Field.shape

/-- What stands beside a tag has been read to its end before. -/
def partMode (s : Shape) (mode : ReadMode) : ReadMode :=
  match s with
  | propertyKind | structValue | expr => .buffered
  | _ => mode

end Shape

structure Reading where
  isNull : Bool
  as : (s : Shape) → ReadMode → Option s.Carrier

def Reading.field (r : Reading) (f : Field) (mode : ReadMode) : Option f.Carrier :=
  match f with
  | ⟨_, s, true, _⟩ => if r.isNull then some none else (r.as s mode).map some
  | ⟨_, s, false, _⟩ => r.as s mode

def fieldUnder (f : Field) (mode : ReadMode) : Option (Option Reading) → Option f.Carrier
  | some (some r) => r.field f mode
  | some none => f.absent
  | none => none

def readFields (mode : ReadMode) : (fs : List Field) → List (String × Reading) → Option (Args fs)
  | [], _ => some ()
  | f :: fs, rs =>
    (fieldUnder f mode (sole f.name rs)).bind fun a => (readFields mode fs rs).map (a, ·)

def readElements (mode : ReadMode) : (fs : List Field) → List Reading → Option (Args fs)
  | [], [] => some ()
  | [], _ :: _ => none
  | f :: fs, [] => f.absent.bind fun a => (readElements mode fs []).map (a, ·)
  | f :: fs, r :: rs => (r.field f mode).bind fun a => (readElements mode fs rs).map (a, ·)

/-- Whether the value of a property value comes without a tag in front of it. -/
def valueFirst {α : Type} : List (String × α) → Bool
  | [] => false
  | (key, _) :: rest =>
    if key = "type" then false else if key = "value" then true else valueFirst rest

def readName : (s : Shape) → ReadMode → Json → Option s.Carrier
  | .structuralKind, mode, v =>
    (decodeName StructuralKind.all StructuralKind.tag mode (v.draft none)).toOption
  | .conversion, mode, v => (decodeName Conversion.all Conversion.tag mode (v.draft none)).toOption
  | _, _, _ => none

/-- How the fields of an object are decoded. When the order of members matters, a
property value in front of its tag has been read to its end. -/
def objectMode (ordered : Bool) (s : Shape) (mode : ReadMode) (ms : List (String × Json)) :
    ReadMode :=
  match s with
  | .propertyValue => if ordered && valueFirst ms then .buffered else mode
  | s => s.partMode mode

def readObject (ordered : Bool) (s : Shape) (mode : ReadMode) (ms : List (String × Json))
    (rs : List (String × Reading)) : Option s.Carrier :=
  ((s.form? mode ms).bind fun form =>
    (readFields (objectMode ordered s mode ms) form.fields rs).map form.build).or
    (readName s mode (.object ms))

def readList (s : Shape) (mode : ReadMode) (items : List Json) (rs : List Reading) :
    Option s.Carrier :=
  match s with
  | .list item => rs.mapM fun r => r.as item mode
  | s => do
    let (skipped, form) ← s.listForm? mode items
    (readElements (s.partMode mode) form.fields (rs.drop skipped)).map form.build

theorem readList_form {s : Shape} (h : ∀ item, s ≠ .list item) (mode : ReadMode) (items : List Json)
    (rs : List Reading) :
    readList s mode items rs = (s.listForm? mode items).bind fun p =>
      (readElements (s.partMode mode) p.2.fields (rs.drop p.1)).map p.2.build := by
  cases s with
  | list item => exact absurd rfl (h item)
  | _ => rfl

theorem itemShape?_form {s : Shape} (h : ∀ item, s ≠ .list item) (mode : ReadMode)
    (before : List Json) : s.itemShape? mode before = (s.listForm? mode before).bind fun p =>
      p.2.fields[before.length - p.1]?.map Field.shape := by
  cases s with
  | list item => exact absurd rfl (h item)
  | _ => rfl

def Draft.isNull : Draft → Bool
  | .null => true
  | _ => false

mutual

/-- What a value is read as, with or without regard to the order of members. -/
def Json.reading (ordered : Bool) : Json → Reading
  | .list items => ⟨false, fun s mode => readList s mode items (Json.itemsReading ordered items)⟩
  | .object ms =>
    ⟨false, fun s mode => readObject ordered s mode ms (Json.membersReading ordered ms)⟩
  | v => ⟨(v.draft none).isNull, fun s mode => (decode s mode (v.draft none)).toOption⟩

def Json.itemsReading (ordered : Bool) : List Json → List Reading
  | [] => []
  | v :: rest => v.reading ordered :: Json.itemsReading ordered rest

def Json.membersReading (ordered : Bool) : List (String × Json) → List (String × Reading)
  | [] => []
  | (key, v) :: rest => (key, v.reading ordered) :: Json.membersReading ordered rest

end

namespace Json

theorem itemsReading_eq (ordered : Bool) (items : List Json) :
    itemsReading ordered items = items.map (reading ordered) := by
  induction items with
  | nil => rfl
  | cons v items ih => rw [itemsReading, ih, List.map_cons]

theorem membersReading_eq (ordered : Bool) (ms : List (String × Json)) :
    membersReading ordered ms = ms.map fun m => (m.1, m.2.reading ordered) := by
  induction ms with
  | nil => rfl
  | cons m ms ih => rw [membersReading, ih, List.map_cons]

theorem keys_membersReading (ordered : Bool) (ms : List (String × Json)) :
    (membersReading ordered ms).map Prod.fst = ms.map Prod.fst := by
  rw [membersReading_eq, List.map_map]
  rfl

theorem sole_membersReading (ordered : Bool) (name : String) (ms : List (String × Json)) :
    sole name (membersReading ordered ms) = (sole name ms).map (Option.map (reading ordered)) := by
  rw [membersReading_eq, sole_map]

end Json

end Pseudocode
