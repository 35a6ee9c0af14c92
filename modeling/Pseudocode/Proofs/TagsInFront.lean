import Pseudocode.Proofs.Reordering

/-! Tags that come first. A value with its tags in front is read the same
whether or not the order of its members counts, and a part of it may be
exchanged for one that is read the same. -/

namespace Pseudocode

/-- In a value that is read in the shape `s`, a part is read in the shape `t`. The
context puts the part in its place. -/
inductive Within : (s t : Shape) → (context : Json → Json) → Prop
  | here (s : Shape) : Within s s fun v => v
  | member {s t : Shape} {context : Json → Json} {pre post : List (String × Json)}
      {form : Form s.Carrier} {f : Field} (hform : s.form? .buffered (pre ++ post) = some form)
      (hf : f ∈ form.fields) (h : Within f.shape t context) : Within s t fun v =>
    .object (pre ++ (f.name, context v) :: post)
  | item {s i t : Shape} {context : Json → Json} {pre post : List Json}
      (hi : s.itemShape? .buffered pre = some i) (h : Within i t context) : Within s t fun v =>
    .list (pre ++ context v :: post)

theorem form?_insert {s : Shape} {key : String} (h : s.tagName ≠ some key) (m : ReadMode) (v : Json)
    (pre post : List (String × Json)) :
    s.form? m (pre ++ (key, v) :: post) = s.form? m (pre ++ post) := by
  refine form?_congr fun dec name hname _ => ?_
  have hkey : key ≠ name := fun he => h (he ▸ hname)
  unfold tagOf
  rw [sole_insert_ne hkey]

theorem form?_apart {s : Shape} {m : ReadMode} {ms : List (String × Json)} {form : Form s.Carrier}
    (h : s.form? m ms = some form) :
    (form.fields.map Field.name).Nodup ∧ ∀ f ∈ form.fields, s.tagName ≠ some f.name := by
  have hforeign {name : String} {fs : List Field} (h : name ∉ fs.map Field.name) :
      ∀ f ∈ fs, some name ≠ some f.name :=
    fun f hf he => h (Option.some.inj he ▸ List.mem_map_of_mem hf)
  cases s with
  | record r =>
    cases h
    exact ⟨r.nodup_fields, fun f _ => by simp [Shape.tagName]⟩
  | propertyKind =>
    obtain ⟨t, -, rfl⟩ := Option.map_eq_some_iff.mp h
    exact ⟨t.apart.nodup, hforeign t.apart.foreign⟩
  | structValue =>
    obtain ⟨t, -, rfl⟩ := Option.map_eq_some_iff.mp h
    exact ⟨t.apart.nodup, hforeign t.apart.foreign⟩
  | propertyValue =>
    obtain ⟨t, -, rfl⟩ := Option.map_eq_some_iff.mp h
    refine ⟨List.nodup_singleton _, hforeign ?_⟩
    cases t <;> simp
  | expr =>
    obtain ⟨op, -, rfl⟩ := Option.map_eq_some_iff.mp h
    refine ⟨List.nodup_cons.mpr ⟨op.apart.2, op.apart.1.nodup⟩, hforeign ?_⟩
    rw [List.map_cons, List.mem_cons, not_or]
    exact ⟨by decide, op.apart.1.foreign⟩
  | _ => cases h

theorem itemShape?_kept {s : Shape} {m m' : ReadMode} (h : m.Before m') {items : List Json}
    {t : Shape} (ht : s.itemShape? m items = some t) : s.itemShape? m' items = some t := by
  by_cases hs : ∃ item, s = .list item
  · obtain ⟨item, rfl⟩ := hs
    exact ht
  · rw [itemShape?_form (not_exists.mp hs)] at ht ⊢
    obtain ⟨p, hp, hfield⟩ := Option.bind_eq_some_iff.mp ht
    rw [listForm?_kept h hp]
    exact hfield

theorem ReadMode.before_buffered (m : ReadMode) : m.Before .buffered := .inr rfl

theorem readName_of_form {s : Shape} {m m' : ReadMode} {ms : List (String × Json)}
    {form : Form s.Carrier} (h : s.form? m ms = some form) (v : Json) : readName s m' v = none := by
  cases s with
  | structuralKind => cases h
  | conversion => cases h
  | _ => rfl

theorem listForm?_behind {s i : Shape} {m m' : ReadMode} {before : List Json}
    (h : s.itemShape? m before = some i) (rest rest' : List Json) :
    s.listForm? m' (before ++ rest) = s.listForm? m' (before ++ rest') := by
  cases before with
  | cons v before => cases s <;> rfl
  | nil =>
    cases s with
    | propertyKind => cases h
    | structValue => cases h
    | propertyValue => cases h
    | _ => rfl

/-- What is read from an object is read from another if they have the same fields,
each with the same value. -/
theorem kept_of_form {s : Shape} {ms ms' : List (String × Json)} (form : Form s.Carrier)
    (hform : s.form? .buffered ms = some form) (hsame : ∀ m, s.form? m ms = s.form? m ms')
    {m : ReadMode}
    (hfields : ∀ f ∈ form.fields,
      ∀ a, fieldUnder f (s.partMode m) (sole f.name (Json.membersReading false ms)) = some a →
      fieldUnder f (s.partMode m) (sole f.name (Json.membersReading false ms')) = some a) :
    ((Json.object ms).reading false).Kept s m m ((Json.object ms').reading false) := by
  refine kept_object fun x hx => readObject_kept (fun form' hform' => ⟨?_, ?_⟩) (fun x hx => ?_) hx
  · rw [← hsame]
    exact hform'
  · obtain rfl : form = form' :=
      Option.some.inj (hform.symm.trans (form?_kept m.before_buffered hform'))
    rw [objectMode_false, objectMode_false]
    exact hfields
  · rw [readName_of_form hform] at hx
    cases hx

/-- If all that is read from a part is read from another, the same holds of the
values around them. -/
theorem Within.kept {s t : Shape} {context : Json → Json} (h : Within s t context) {w w' : Json}
    (hw : ∀ m, (w.reading false).Kept t m m (w'.reading false)) (m : ReadMode) :
    ((context w).reading false).Kept s m m ((context w').reading false) := by
  induction h generalizing m with
  | here s => exact hw m
  | @member s t context pre post form f hform hf h ih =>
    obtain ⟨hnodup, hforeign⟩ := form?_apart hform
    refine kept_of_form form ?_ (fun m => ?_) fun g hg a ha => ?_
    · rw [form?_insert (hforeign f hf), hform]
    · rw [form?_insert (hforeign f hf), form?_insert (hforeign f hf)]
    · refine fieldUnder_exchange (fun hname => ?_) pre post ha
      obtain rfl : f = g := List.inj_on_of_nodup_map hnodup hf hg hname
      exact ih hw _
  | @item s i t context pre post hi h ih =>
    refine kept_list fun x hx =>
      readList_kept (by simp) (fun p hp => ?_) (fun j v v' i' hi' hv hv' => ?_) hx
    · rw [← listForm?_behind hi]
      exact hp
    · rcases getElem?_exchange hv hv' with rfl | ⟨rfl, rfl, rfl⟩
      · exact .refl i' _ _
      · rw [List.take_left] at hi'
        obtain rfl : i = i' :=
          Option.some.inj (hi.symm.trans (itemShape?_kept m.before_buffered hi'))
        exact ih hw _

/-- Whether no property value has its value in front of its tag. -/
def TagsFirst (s : Shape) (v : Json) : Prop :=
  ∀ (context : Json → Json) (pre mid post : List (String × Json)) (value tag : Json),
    Within s .propertyValue context →
    v ≠ context (.object (pre ++ ("value", value) :: (mid ++ ("type", tag) :: post)))

theorem TagsFirst.member {s : Shape} {pre post : List (String × Json)} {form : Form s.Carrier}
    {f : Field} {w : Json} (h : TagsFirst s (.object (pre ++ (f.name, w) :: post)))
    (hform : s.form? .buffered (pre ++ post) = some form) (hf : f ∈ form.fields) :
    TagsFirst f.shape w := by
  intro context pre' mid post' value tag hcontext hw
  subst hw
  exact h _ pre' mid post' value tag (.member hform hf hcontext) rfl

theorem TagsFirst.item {s i : Shape} {pre post : List Json} {w : Json}
    (h : TagsFirst s (.list (pre ++ w :: post))) (hi : s.itemShape? .buffered pre = some i) :
    TagsFirst i w := by
  intro context pre' mid post' value tag hcontext hw
  subst hw
  exact h (fun v => .list (pre ++ context v :: post)) pre' mid post' value tag
    (.item hi hcontext) rfl

theorem valueFirst_split {ms : List (String × Json)} {tag : Json} (h : valueFirst ms = true)
    (htag : ("type", tag) ∈ ms) :
    ∃ pre value mid post, ms = pre ++ ("value", value) :: (mid ++ ("type", tag) :: post) := by
  induction ms with
  | nil => cases h
  | cons m ms ih =>
    obtain ⟨key, v⟩ := m
    by_cases htype : key = "type"
    · rw [valueFirst, if_pos htype] at h
      cases h
    · have hmem : ("type", tag) ∈ ms := by
        rcases List.mem_cons.mp htag with he | hmem
        · exact absurd (congrArg Prod.fst he).symm htype
        · exact hmem
      by_cases hvalue : key = "value"
      · subst hvalue
        obtain ⟨mid, post, rfl⟩ := List.append_of_mem hmem
        exact ⟨[], v, mid, post, rfl⟩
      · rw [valueFirst, if_neg htype, if_neg hvalue] at h
        obtain ⟨pre, value, mid, post, rfl⟩ := ih h hmem
        exact ⟨(key, v) :: pre, value, mid, post, rfl⟩

theorem TagsFirst.objectMode {s : Shape} {ms : List (String × Json)} (h : TagsFirst s (.object ms))
    {m : ReadMode} {form : Form s.Carrier} (hform : s.form? m ms = some form) :
    objectMode true s m ms = s.partMode m := by
  by_cases hs : s = .propertyValue
  · subst hs
    obtain ⟨t, ht, -⟩ := Option.map_eq_some_iff.mp hform
    by_cases hvalue : valueFirst ms = true
    · exfalso
      unfold tagOf at ht
      split at ht
      · rename_i tag hsole
        obtain ⟨pre, value, mid, post, hms⟩ := valueFirst_split hvalue (sole_mem hsole)
        exact h (fun v => v) pre mid post value tag (.here .propertyValue)
          (congrArg Json.object hms)
      · cases ht
    · unfold Pseudocode.objectMode
      rw [Bool.true_and, if_neg hvalue]
      rfl
  · exact objectMode_eq hs true m ms

theorem TagsFirst.kept {s : Shape} {v : Json} (h : TagsFirst s v) (m : ReadMode) :
    (v.reading true).Kept s m m (v.reading false) := by
  induction v using Json.induction generalizing s m with
  | leaf v hleaf =>
    rw [reading_leaf hleaf, reading_leaf hleaf]
    exact .refl s m _
  | list items ih =>
    refine kept_list fun x hx =>
      readList_kept rfl (fun p hp => hp) (fun i v v' t ht hv hv' => ?_) hx
    obtain rfl : v = v' := Option.some.inj (hv.symm.trans hv')
    obtain ⟨hi, hitem⟩ := List.getElem?_eq_some_iff.mp hv
    have hsplit : items = items.take i ++ v :: items.drop (i + 1) := by
      rw [← hitem, List.getElem_cons_drop, List.take_append_drop]
    rw [hsplit] at h
    exact ih v (List.mem_of_getElem? hv) (h.item (itemShape?_kept m.before_buffered ht))
      (s.partMode m)
  | object ms ih =>
    refine kept_object fun x hx =>
      readObject_kept (fun form hform => ⟨hform, fun f hf a ha => ?_⟩) (fun x hx => hx) hx
    rw [h.objectMode hform] at ha
    rw [objectMode_false]
    refine fieldUnder_members_kept (fun v hv => ?_) ha
    obtain ⟨pre, post, rfl⟩ := List.append_of_mem hv
    rw [form?_insert ((form?_apart hform).2 f hf)] at hform
    exact ih _ hv (h.member (form?_kept m.before_buffered hform) hf) _

end Pseudocode
