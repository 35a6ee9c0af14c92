import Pseudocode.Proofs.KeptFields

/-! Values that are read to their end first. Whatever form a value is read in,
its parts are read as before, and so is the value. -/

namespace Pseudocode

theorem tagOf_kept {τ : Type} {name : String} {dec dec' : Draft → Decoded τ}
    {ms : List (String × Json)} (h : ∀ d t, (dec d).toOption = some t → (dec' d).toOption = some t)
    {t : τ} (ht : tagOf name dec ms = some t) : tagOf name dec' ms = some t := by
  unfold tagOf at ht ⊢
  cases hsole : sole name ms with
  | none => simp [hsole] at ht
  | some v? =>
    cases v? with
    | none => simp [hsole] at ht
    | some v =>
      simp only [hsole] at ht
      exact h _ t ht

section Kept

variable {s : Shape} {m m' : ReadMode}

theorem form?_kept (h : m.Before m') {ms : List (String × Json)} {form : Form s.Carrier}
    (hform : s.form? m ms = some form) : s.form? m' ms = some form := by
  cases s with
  | propertyKind =>
    obtain ⟨t, ht, rfl⟩ := Option.map_eq_some_iff.mp hform
    rw [Shape.form?, tagOf_kept (fun d t => decodeTag_kept h) ht, Option.map_some]
  | structValue =>
    obtain ⟨t, ht, rfl⟩ := Option.map_eq_some_iff.mp hform
    rw [Shape.form?, tagOf_kept (fun d t => decodeTag_kept h) ht, Option.map_some]
  | propertyValue =>
    obtain ⟨t, ht, rfl⟩ := Option.map_eq_some_iff.mp hform
    rw [Shape.form?, tagOf_kept (fun d t => decodeName_kept h) ht, Option.map_some]
  | _ => exact hform

theorem listForm?_kept (h : m.Before m') {items : List Json} {p : Nat × Form s.Carrier}
    (hp : s.listForm? m items = some p) : s.listForm? m' items = some p := by
  cases s with
  | propertyKind =>
    cases items with
    | nil => cases hp
    | cons v items =>
      obtain ⟨t, ht, rfl⟩ := Option.map_eq_some_iff.mp hp
      rw [Shape.listForm?, decodeTag_kept h ht, Option.map_some]
  | structValue =>
    cases items with
    | nil => cases hp
    | cons v items =>
      obtain ⟨t, ht, rfl⟩ := Option.map_eq_some_iff.mp hp
      rw [Shape.listForm?, decodeTag_kept h ht, Option.map_some]
  | propertyValue =>
    cases items with
    | nil => cases hp
    | cons v items =>
      obtain ⟨t, ht, rfl⟩ := Option.map_eq_some_iff.mp hp
      rw [Shape.listForm?, decodeTag_kept h ht, Option.map_some]
  | _ => exact hp

theorem readName_kept (h : m.Before m') {v : Json} {x : s.Carrier} (hx : readName s m v = some x) :
    readName s m' v = some x := by
  cases s with
  | structuralKind => exact decodeName_kept h hx
  | conversion => exact decodeName_kept h hx
  | _ => cases hx

theorem form?_of_readName {v : Json} {x : s.Carrier} (hx : readName s m v = some x)
    (ms : List (String × Json)) : s.form? m' ms = none := by
  cases s with
  | structuralKind => rfl
  | conversion => rfl
  | _ => cases hx

theorem readObject_kept {ordered ordered' : Bool} {ms ms' : List (String × Json)}
    {rs rs' : List (String × Reading)}
    (hform : ∀ form, s.form? m ms = some form → s.form? m' ms' = some form ∧
      ∀ f ∈ form.fields, ∀ a, fieldUnder f (objectMode ordered s m ms) (sole f.name rs) = some a →
      fieldUnder f (objectMode ordered' s m' ms') (sole f.name rs') = some a)
    (hname : ∀ x, readName s m (.object ms) = some x → readName s m' (.object ms') = some x)
    {x : s.Carrier} (hx : readObject ordered s m ms rs = some x) :
    readObject ordered' s m' ms' rs' = some x := by
  rcases Option.or_eq_some_iff.mp hx with hread | ⟨-, hread⟩
  · obtain ⟨form, hms, hargs⟩ := Option.bind_eq_some_iff.mp hread
    obtain ⟨args, hfs, rfl⟩ := Option.map_eq_some_iff.mp hargs
    obtain ⟨hms', hfields⟩ := hform form hms
    rw [readObject, hms', Option.bind_some, readFields_kept hfields hfs]
    rfl
  · rw [readObject, form?_of_readName hread, hname x hread]
    rfl

theorem listForm?_take {items : List Json} {p : Nat × Form s.Carrier}
    (hp : s.listForm? m items = some p) {i : Nat} (hi : p.1 ≤ i) :
    s.listForm? m (items.take i) = some p := by
  cases i with
  | succ i =>
    cases items with
    | nil => exact hp
    | cons v items => cases s <;> exact hp
  | zero =>
    cases s with
    | pair first second => exact hp
    | record r => exact hp
    | propertyKind =>
      cases items with
      | nil => cases hp
      | cons v items =>
        obtain ⟨t, -, rfl⟩ := Option.map_eq_some_iff.mp hp
        omega
    | structValue =>
      cases items with
      | nil => cases hp
      | cons v items =>
        obtain ⟨t, -, rfl⟩ := Option.map_eq_some_iff.mp hp
        omega
    | propertyValue =>
      cases items with
      | nil => cases hp
      | cons v items =>
        obtain ⟨t, -, rfl⟩ := Option.map_eq_some_iff.mp hp
        omega
    | _ => cases hp

theorem readList_kept {ordered ordered' : Bool} {items items' : List Json}
    (hlength : items'.length = items.length)
    (hform : ∀ p, s.listForm? m items = some p → s.listForm? m' items' = some p)
    (hpart : ∀ (i : Nat) (v v' : Json) (t : Shape), s.itemShape? m (items.take i) = some t →
      items[i]? = some v → items'[i]? = some v' →
      (v.reading ordered).Kept t (s.partMode m) (s.partMode m') (v'.reading ordered'))
    {x : s.Carrier} (hx : readList s m items (Json.itemsReading ordered items) = some x) :
    readList s m' items' (Json.itemsReading ordered' items') = some x := by
  rw [Json.itemsReading_eq] at hx ⊢
  by_cases hs : ∃ item, s = .list item
  · obtain ⟨item, rfl⟩ := hs
    refine mapM_kept (by simp [hlength]) (fun i r r' hr hr' => ?_) hx
    rw [List.getElem?_map] at hr hr'
    obtain ⟨v, hv, rfl⟩ := Option.map_eq_some_iff.mp hr
    obtain ⟨v', hv', rfl⟩ := Option.map_eq_some_iff.mp hr'
    exact hpart i v v' item rfl hv hv'
  · rw [readList_form (not_exists.mp hs)] at hx ⊢
    obtain ⟨p, hp, hargs⟩ := Option.bind_eq_some_iff.mp hx
    obtain ⟨args, hread, rfl⟩ := Option.map_eq_some_iff.mp hargs
    have hkept :
        readElements (s.partMode m') p.2.fields ((items'.map (Json.reading ordered')).drop p.1) =
        some args := by
      refine readElements_kept (by simp [hlength]) (fun j f r r' hf hr hr' => ?_) hread
      rw [List.getElem?_drop, List.getElem?_map] at hr hr'
      obtain ⟨v, hv, rfl⟩ := Option.map_eq_some_iff.mp hr
      obtain ⟨v', hv', rfl⟩ := Option.map_eq_some_iff.mp hr'
      refine hpart (p.1 + j) v v' f.shape ?_ hv hv'
      obtain ⟨hlt, -⟩ := List.getElem?_eq_some_iff.mp hv
      have hbefore : (items.take (p.1 + j)).length - p.1 = j := by
        rw [List.length_take]
        omega
      rw [itemShape?_form (not_exists.mp hs), listForm?_take hp (Nat.le_add_right p.1 j),
        Option.bind_some, hbefore, hf]
      rfl
    rw [hform p hp, Option.bind_some, hkept]
    rfl

end Kept

theorem draft_leaf_ne {v : Json} (h : v.isLeaf = true) :
    (∀ tooDeep items ending, v.draft none ≠ .list tooDeep items ending) ∧
      ∀ tooDeep members ending, v.draft none ≠ .object tooDeep members ending := by
  have hnumeral (cs : List Char) :
      (∀ tooDeep items ending, numeralDraft cs ≠ .list tooDeep items ending) ∧
        ∀ tooDeep members ending, numeralDraft cs ≠ .object tooDeep members ending := by
    unfold numeralDraft
    split <;> simp
  cases v with
  | list items => cases h
  | object ms => cases h
  | int value => exact hnumeral _
  | narrow value =>
    rw [Json.draft]
    cases value.storedText with
    | none => simp
    | some t => exact hnumeral _
  | wide value =>
    rw [Json.draft]
    cases value.storedText with
    | none => simp
    | some t => exact hnumeral _
  | _ => simp [Json.draft]

theorem decode_leaf {v : Json} (h : v.isLeaf = true) {s : Shape} (hkind : s ≠ .structuralKind)
    (hconversion : s ≠ .conversion) (m m' : ReadMode) :
    decode s m (v.draft none) = decode s m' (v.draft none) := by
  obtain ⟨hlist, hobject⟩ := draft_leaf_ne h
  cases s with
  | structuralKind => exact absurd rfl hkind
  | conversion => exact absurd rfl hconversion
  | list item => rw [decode, decode] <;> exact hlist
  | pair first second => rw [decode, decode] <;> exact hlist
  | record r => rw [decode, decode] <;> assumption
  | propertyKind => rw [decode, decode] <;> assumption
  | structValue => rw [decode, decode] <;> assumption
  | propertyValue => rw [decode, decode] <;> assumption
  | expr => rw [decode, decode] <;> assumption
  | _ => rw [decode, decode]

theorem decode_leaf_kept {v : Json} (h : v.isLeaf = true) {s : Shape} {m m' : ReadMode}
    (hm : m.Before m') {x : s.Carrier} (hx : (decode s m (v.draft none)).toOption = some x) :
    (decode s m' (v.draft none)).toOption = some x := by
  by_cases hkind : s = .structuralKind
  · subst hkind
    rw [decode] at hx ⊢
    exact decodeName_kept hm hx
  · by_cases hconversion : s = .conversion
    · subst hconversion
      rw [decode] at hx ⊢
      exact decodeName_kept hm hx
    · rw [decode_leaf h hkind hconversion m' m]
      exact hx

theorem fieldUnder_members_kept {f : Field} {m m' : ReadMode} {ordered ordered' : Bool}
    {ms : List (String × Json)}
    (h : ∀ v, (f.name, v) ∈ ms → (v.reading ordered).Kept f.shape m m' (v.reading ordered'))
    {a : f.Carrier} (ha : fieldUnder f m (sole f.name (Json.membersReading ordered ms)) = some a) :
    fieldUnder f m' (sole f.name (Json.membersReading ordered' ms)) = some a := by
  rw [Json.sole_membersReading] at ha ⊢
  refine fieldUnder_kept (fun hu => ?_) (fun r hu => ?_) ha
  · cases hsole : sole f.name ms with
    | none => simp [hsole] at hu
    | some v? =>
      cases v? with
      | none => rfl
      | some v => simp [hsole] at hu
  · obtain ⟨v?, hsole, hv⟩ := Option.map_eq_some_iff.mp hu
    obtain ⟨v, rfl, rfl⟩ := Option.map_eq_some_iff.mp hv
    rw [hsole]
    exact ⟨v.reading ordered', rfl, h v (sole_mem hsole)⟩

section Parts

variable {s : Shape} {m m' : ReadMode} {ordered ordered' : Bool}

theorem reading_leaf {v : Json} (h : v.isLeaf = true) (ordered : Bool) :
    v.reading ordered =
      ⟨(v.draft none).isNull, fun s m => (decode s m (v.draft none)).toOption⟩ := by
  cases v with
  | list items => cases h
  | object ms => cases h
  | _ => rw [Json.reading] <;> simp

theorem kept_list {items items' : List Json}
    (h : ∀ x, readList s m items (Json.itemsReading ordered items) = some x →
      readList s m' items' (Json.itemsReading ordered' items') = some x) :
    ((Json.list items).reading ordered).Kept s m m' ((Json.list items').reading ordered') := by
  rw [Json.reading, Json.reading]
  exact ⟨rfl, h⟩

theorem kept_object {ms ms' : List (String × Json)}
    (h : ∀ x, readObject ordered s m ms (Json.membersReading ordered ms) = some x →
      readObject ordered' s m' ms' (Json.membersReading ordered' ms') = some x) :
    ((Json.object ms).reading ordered).Kept s m m' ((Json.object ms').reading ordered') := by
  rw [Json.reading, Json.reading]
  exact ⟨rfl, h⟩

end Parts

/-- What is read from a value is read from it too when it is read to its end first. -/
theorem Json.reading_kept (v : Json) (s : Shape) {m m' : ReadMode} (hm : m.Before m')
    {ordered ordered' : Bool} (hordered : ordered = true → ordered' = true) :
    (v.reading ordered).Kept s m m' (v.reading ordered') := by
  induction v using Json.induction generalizing s m m' with
  | leaf v hleaf =>
    rw [reading_leaf hleaf, reading_leaf hleaf]
    exact ⟨rfl, fun x hx => decode_leaf_kept hleaf hm hx⟩
  | list items ih =>
    refine kept_list fun x hx =>
      readList_kept rfl (fun p => listForm?_kept hm) (fun i v v' t _ hv hv' => ?_) hx
    obtain rfl : v = v' := Option.some.inj (hv.symm.trans hv')
    exact ih v (List.mem_of_getElem? hv) t (hm.partMode s)
  | object ms ih =>
    refine kept_object fun x hx => readObject_kept (fun form hform =>
      ⟨form?_kept hm hform, fun f _ a => ?_⟩) (fun x => readName_kept hm) hx
    exact fieldUnder_members_kept fun v hv =>
      ih (f.name, v) hv f.shape (hm.objectMode hordered s ms)

end Pseudocode
