import Pseudocode.Proofs.TagsInFront

/-! Changes in the spelling of a dump. Members of objects change places, unknown
ones are added, and those that say nothing new are left out; the numbers that
are in a dump stay in it. -/

namespace Pseudocode

/-- In a dump, a part is read in the shape `s`. -/
inductive InDump (s : Shape) : (context : Json → Json) → Prop
  | mk {context : Json → Json} (t : DumpTag) (h : Within (.record t.record) s context) :
    InDump s fun v => .object [(t.tag, context v)]

/-- Whether a number is a machine word or a finite number of 64 bits. Other values
are no numbers. -/
def Json.isPlain : Json → Prop
  | .int i => isWord i
  | .narrow _ => False
  | .wide x => x.isFinite
  | _ => True

/-- One change in the spelling of a dump. Members of objects change places, or a
record or tagged value has a member more that is not asked for, or one less that
is what it would be if it were left out. An object that stands for a name, as the
dump itself does, has its name as its only key and is neither. -/
inductive Respelling : Json → Json → Prop
  | reorder {v v' : Json} (h : Reordered v v') : Respelling v v'
  | add {s : Shape} {context : Json → Json} {pre post : List (String × Json)}
      {form : Form s.Carrier} {key : String} {w : Json} (hcontext : InDump s context)
      (hform : s.form? .buffered (pre ++ post) = some form) (htag : s.tagName ≠ some key)
      (hkey : key ∉ form.fields.map Field.name) (hw : w.everyLeaf Json.isPlain) :
      Respelling (context (.object (pre ++ post))) (context (.object (pre ++ (key, w) :: post)))
  | drop {s : Shape} {context : Json → Json} {pre post : List (String × Json)}
      {form : Form s.Carrier} {f : Field} {w : Json} {a : f.Carrier} {mode : ReadMode}
      (hcontext : InDump s context) (hform : s.form? .buffered (pre ++ post) = some form)
      (hf : f ∈ form.fields) (habsent : f.absent = some a)
      (hw : (readField f (w.draft none) fun s => decode s mode (w.draft none)) = .ok a) :
      Respelling (context (.object (pre ++ (f.name, w) :: post))) (context (.object (pre ++ post)))

/-- Whether no property value of a dump has its value in front of its tag. -/
def Json.tagsFirst (v : Json) : Prop :=
  ∀ (context : Json → Json) (pre mid post : List (String × Json)) (value tag : Json),
    InDump .propertyValue context →
    v ≠ context (.object (pre ++ ("value", value) :: (mid ++ ("type", tag) :: post)))

theorem Json.tagsFirst.inside {t : DumpTag} {w : Json} (h : (Json.object [(t.tag, w)]).tagsFirst) :
    TagsFirst (.record t.record) w := by
  intro context pre mid post value tag hcontext hw
  subst hw
  exact h _ pre mid post value tag (.mk t hcontext) rfl

theorem Json.inRange_of_isPlain {v : Json} (h : v.everyLeaf Json.isPlain) : v.inRange := by
  induction v using Json.induction with
  | leaf v hleaf =>
    have hplain := (Json.everyLeaf_leaf hleaf).mp h
    cases v with
    | int i =>
      refine (Json.everyLeaf_leaf hleaf).mpr ?_
      rw [Json.draft, numeralDraft_int hplain]
      rfl
    | narrow x => exact hplain.elim
    | wide x =>
      refine (Json.everyLeaf_leaf hleaf).mpr (fault?_real rfl ?_)
      obtain ⟨t, ht⟩ := Option.isSome_iff_exists.mp hplain
      obtain ⟨n, htext, -, hrange⟩ := x.inRange_storedText ht
      rw [Json.draft, ht, Option.map_some, htext, n.readsAs.numeralDraft]
      simpa using hrange
    | list items => cases hleaf
    | object ms => cases hleaf
    | _ => exact (Json.everyLeaf_leaf hleaf).mpr rfl
  | list items ih =>
    exact Json.everyLeaf_list.mpr fun v hv => ih v hv (Json.everyLeaf_list.mp h v hv)
  | object ms ih =>
    exact Json.everyLeaf_object.mpr fun m hm => ih m hm (Json.everyLeaf_object.mp h m hm)

section Leaves

variable {p : Json → Prop}

theorem everyLeaf_item {v v' : Json} (h : v.everyLeaf p → v'.everyLeaf p) (pre post : List Json)
    (hv : (Json.list (pre ++ v :: post)).everyLeaf p) :
    (Json.list (pre ++ v' :: post)).everyLeaf p := by
  rw [Json.everyLeaf_list, List.forall_mem_append, List.forall_mem_cons] at hv ⊢
  exact ⟨hv.1, h hv.2.1, hv.2.2⟩

theorem everyLeaf_member {key : String} {v v' : Json} (h : v.everyLeaf p → v'.everyLeaf p)
    (pre post : List (String × Json)) (hv : (Json.object (pre ++ (key, v) :: post)).everyLeaf p) :
    (Json.object (pre ++ (key, v') :: post)).everyLeaf p := by
  rw [Json.everyLeaf_object, List.forall_mem_append, List.forall_mem_cons] at hv ⊢
  exact ⟨hv.1, h hv.2.1, hv.2.2⟩

theorem Reordered.everyLeaf {v v' : Json} (h : Reordered v v') (hv : v.everyLeaf p) :
    v'.everyLeaf p := by
  induction h with
  | here h =>
    rw [Json.everyLeaf_object] at hv ⊢
    exact fun m hm => hv m (h.mem_iff.mpr hm)
  | item h ih => exact everyLeaf_item ih _ _ hv
  | member h ih => exact everyLeaf_member ih _ _ hv

theorem Within.everyLeaf {s t : Shape} {context : Json → Json} (h : Within s t context)
    {w w' : Json} (hw : w.everyLeaf p → w'.everyLeaf p) (hv : (context w).everyLeaf p) :
    (context w').everyLeaf p := by
  induction h with
  | here s => exact hw hv
  | member hform hf h ih => exact everyLeaf_member ih _ _ hv
  | item hi h ih => exact everyLeaf_item ih _ _ hv

theorem Within.everyLeaf_part {s t : Shape} {context : Json → Json} (h : Within s t context)
    {w : Json} (hv : (context w).everyLeaf p) : w.everyLeaf p := by
  induction h with
  | here s => exact hv
  | member hform hf h ih =>
    exact ih (Json.everyLeaf_object.mp hv _ (List.mem_append_right _ List.mem_cons_self))
  | item hi h ih =>
    exact ih (Json.everyLeaf_list.mp hv _ (List.mem_append_right _ List.mem_cons_self))

theorem InDump.everyLeaf {s : Shape} {context : Json → Json} (h : InDump s context) {w w' : Json}
    (hw : w.everyLeaf p → w'.everyLeaf p) (hv : (context w).everyLeaf p) :
    (context w').everyLeaf p := by
  obtain ⟨t, h⟩ := h
  exact everyLeaf_member (h.everyLeaf hw) [] [] hv

theorem InDump.everyLeaf_part {s : Shape} {context : Json → Json} (h : InDump s context) {w : Json}
    (hv : (context w).everyLeaf p) : w.everyLeaf p := by
  obtain ⟨t, h⟩ := h
  exact h.everyLeaf_part (Json.everyLeaf_object.mp hv _ List.mem_cons_self)

end Leaves

end Pseudocode
