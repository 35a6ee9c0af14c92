import Pseudocode.Proofs.KeptReadings

/-! What is read from a value is kept when members of its objects change places. -/

namespace Pseudocode

/-- The members of one object somewhere inside a value change places. -/
inductive Reordered : Json → Json → Prop
  | here {ms ms' : List (String × Json)} (h : ms.Perm ms') : Reordered (.object ms) (.object ms')
  | item {v v' : Json} {pre post : List Json} (h : Reordered v v') :
    Reordered (.list (pre ++ v :: post)) (.list (pre ++ v' :: post))
  | member {key : String} {v v' : Json} {pre post : List (String × Json)} (h : Reordered v v') :
    Reordered (.object (pre ++ (key, v) :: post)) (.object (pre ++ (key, v') :: post))

theorem Reordered.not_leaf {v v' : Json} (h : Reordered v v') :
    v.isLeaf = false ∧ v'.isLeaf = false := by
  cases h <;> exact ⟨rfl, rfl⟩

theorem Reordered.empty_iff {v v' : Json} (h : Reordered v v') :
    v = .object [] ↔ v' = .object [] := by
  cases h with
  | @here ms ms' h =>
    rw [Json.object.injEq, Json.object.injEq]
    exact ⟨fun hms => List.nil_perm.mp (hms ▸ h), fun hms' => List.perm_nil.mp (hms' ▸ h)⟩
  | item h => simp
  | member h => simp

theorem decodeTag_not_leaf {α : Type} (all : List α) (tag : α → String) (m : ReadMode) {v : Json}
    (h : v.isLeaf = false) : (decodeTag all tag m (v.draft none)).toOption = none := by
  cases v with
  | list items =>
    rw [Json.draft, decodeTag, toOption_mismatch] <;> simp
  | object ms =>
    rw [Json.draft, decodeTag, toOption_mismatch] <;> simp
  | _ => cases h

theorem decodeUnit_not_leaf (m : ReadMode) {v : Json} (h : v.isLeaf = false)
    (hempty : v ≠ .object []) : (decodeUnit m (v.draft none)).toOption = none := by
  cases v with
  | list items =>
    rw [Json.draft, decodeUnit, toOption_mismatch] <;> simp
  | object ms =>
    cases ms with
    | nil => exact absurd rfl hempty
    | cons m ms =>
      rw [Json.draft, Json.membersDraft, decodeUnit, toOption_mismatch] <;> simp
  | _ => cases h

theorem decodeName_list {α : Type} (all : List α) (tag : α → String) (m : ReadMode)
    (items : List Json) :
    (decodeName all tag m ((Json.list items).draft none)).toOption = none := by
  cases m with
  | direct => rfl
  | buffered => exact toOption_mismatch _ _

theorem decodeName_single {α : Type} (all : List α) (tag : α → String) (m : ReadMode) (key : String)
    (v : Json) :
    (decodeName all tag m ((Json.object [(key, v)]).draft none)).toOption =
      (chooseName all tag key).toOption.bind fun a =>
        (decodeUnit m (v.draft none)).toOption.map fun _ => a := by
  cases m with
  | direct =>
    change (chooseName all tag key >>= fun a => decodeUnit .direct (v.draft none) >>= fun _ =>
      .ok a).toOption = _
    simp only [toOption_bind]
    cases (decodeUnit .direct (v.draft none)).toOption <;> rfl
  | buffered =>
    change (chooseName all tag key >>= fun a => decodeUnit .buffered (v.draft none) >>= fun _ =>
      .ok a).toOption = _
    simp only [toOption_bind]
    cases (decodeUnit .buffered (v.draft none)).toOption <;> rfl

theorem decodeName_object {α : Type} (all : List α) (tag : α → String) (m : ReadMode)
    {ms : List (String × Json)} (h : ms.length ≠ 1) :
    (decodeName all tag m ((Json.object ms).draft none)).toOption = none := by
  cases ms with
  | nil => cases m <;> rfl
  | cons first rest =>
    cases rest with
    | nil => exact absurd rfl h
    | cons second rest =>
      cases m with
      | buffered => rfl
      | direct =>
        change (chooseName all tag first.1 >>= fun a =>
            decodeUnit .direct (first.2.draft none) >>= fun _ =>
          (.error (.fault .expectedValue) : Decoded α)).toOption = _
        simp only [toOption_bind]
        cases (chooseName all tag first.1).toOption with
        | none => rfl
        | some a => cases (decodeUnit .direct (first.2.draft none)).toOption <;> rfl

namespace Reordered

variable {v v' : Json}

theorem decodeUnit (h : Reordered v v') (m : ReadMode) :
    (decodeUnit m (v.draft none)).toOption = (decodeUnit m (v'.draft none)).toOption := by
  by_cases hempty : v = .object []
  · rw [hempty, h.empty_iff.mp hempty]
  · rw [decodeUnit_not_leaf m h.not_leaf.1 hempty,
      decodeUnit_not_leaf m h.not_leaf.2 (mt h.empty_iff.mpr hempty)]

theorem decodeName (h : Reordered v v') {α : Type} (all : List α) (tag : α → String)
    (m : ReadMode) :
    (decodeName all tag m (v.draft none)).toOption =
      (decodeName all tag m (v'.draft none)).toOption := by
  cases h with
  | item h => rw [decodeName_list, decodeName_list]
  | @here ms ms' h =>
    by_cases hlength : ms.length = 1
    · obtain ⟨first, rfl⟩ := List.length_eq_one_iff.mp hlength
      rw [List.singleton_perm.mp h]
    · rw [decodeName_object all tag m hlength, decodeName_object all tag m (h.length_eq ▸ hlength)]
  | @member key v v' pre post h =>
    by_cases hlength : (pre ++ (key, v) :: post).length = 1
    · have hnil : pre = [] ∧ post = [] := by
        simp only [List.length_append, List.length_cons] at hlength
        exact ⟨List.length_eq_zero_iff.mp (by omega), List.length_eq_zero_iff.mp (by omega)⟩
      obtain ⟨rfl, rfl⟩ := hnil
      simp only [List.nil_append, decodeName_single, h.decodeUnit m]
    · have hlength' : (pre ++ (key, v') :: post).length ≠ 1 := by simpa using hlength
      rw [decodeName_object all tag m hlength, decodeName_object all tag m hlength']

theorem readName (h : Reordered v v') (s : Shape) (m : ReadMode) :
    readName s m v = readName s m v' := by
  cases s with
  | structuralKind => exact h.decodeName StructuralKind.all StructuralKind.tag m
  | conversion => exact h.decodeName Conversion.all Conversion.tag m
  | _ => rfl

theorem decodeTag (h : Reordered v v') {α : Type} (all : List α) (tag : α → String) (m : ReadMode) :
    (decodeTag all tag m (v.draft none)).toOption =
      (decodeTag all tag m (v'.draft none)).toOption := by
  rw [decodeTag_not_leaf all tag m h.not_leaf.1, decodeTag_not_leaf all tag m h.not_leaf.2]

end Reordered

theorem form?_congr {s : Shape} {m : ReadMode} {ms ms' : List (String × Json)}
    (h : ∀ {τ : Type} (dec : Draft → Decoded τ) (name : String), s.tagName = some name →
      (∀ v v', Reordered v v' → (dec (v.draft none)).toOption = (dec (v'.draft none)).toOption) →
        tagOf name dec ms = tagOf name dec ms') : s.form? m ms = s.form? m ms' := by
  cases s with
  | propertyKind => rw [Shape.form?, Shape.form?, h _ "type" rfl fun v v' hv => hv.decodeTag _ _ _]
  | structValue => rw [Shape.form?, Shape.form?, h _ "struct" rfl fun v v' hv => hv.decodeTag _ _ _]
  | propertyValue =>
    rw [Shape.form?, Shape.form?, h _ "type" rfl fun v v' hv => hv.decodeName _ _ _]
  | expr => rw [Shape.form?, Shape.form?, h _ "inst" rfl fun v v' hv => hv.decodeTag _ _ _]
  | _ => rfl

theorem tagOf_member {τ : Type} {dec : Draft → Decoded τ} {key : String} {v v' : Json}
    (h : (dec (v.draft none)).toOption = (dec (v'.draft none)).toOption) (name : String)
    (pre post : List (String × Json)) :
    tagOf name dec (pre ++ (key, v) :: post) = tagOf name dec (pre ++ (key, v') :: post) := by
  unfold tagOf
  by_cases hkey : key = name
  · subst hkey
    rw [sole_insert_self, sole_insert_self]
    by_cases hmem : key ∈ (pre ++ post).map Prod.fst
    · rw [if_pos hmem, if_pos hmem]
    · rw [if_neg hmem, if_neg hmem]
      exact h
  · rw [sole_insert_ne hkey, sole_insert_ne hkey]

theorem listForm?_item {s : Shape} {m : ReadMode} {v v' : Json} (h : Reordered v v')
    (pre post : List Json) :
    s.listForm? m (pre ++ v :: post) = s.listForm? m (pre ++ v' :: post) := by
  cases pre with
  | cons w pre => cases s <;> rfl
  | nil =>
    cases s with
    | propertyKind => simp only [List.nil_append, Shape.listForm?, h.decodeTag]
    | structValue => simp only [List.nil_append, Shape.listForm?, h.decodeTag]
    | propertyValue => simp only [List.nil_append, Shape.listForm?, h.decodeTag]
    | _ => rfl

theorem Reading.Kept.refl (s : Shape) (m : ReadMode) (r : Reading) : r.Kept s m m r :=
  ⟨rfl, fun _ h => h⟩

theorem getElem?_exchange {pre post : List Json} {w w' : Json} {i : Nat} {v v' : Json}
    (hv : (pre ++ w :: post)[i]? = some v) (hv' : (pre ++ w' :: post)[i]? = some v') :
    v = v' ∨ i = pre.length ∧ v = w ∧ v' = w' := by
  by_cases hi : i < pre.length
  · rw [List.getElem?_append_left hi] at hv hv'
    exact .inl (Option.some.inj (hv.symm.trans hv'))
  · rw [List.getElem?_append_right (Nat.le_of_not_lt hi)] at hv hv'
    cases hj : i - pre.length with
    | zero =>
      simp only [hj, List.getElem?_cons_zero, Option.some.injEq] at hv hv'
      exact .inr ⟨by omega, hv.symm, hv'.symm⟩
    | succ j =>
      simp only [hj, List.getElem?_cons_succ] at hv hv'
      exact .inl (Option.some.inj (hv.symm.trans hv'))

theorem fieldUnder_exchange {f : Field} {m : ReadMode} {ordered : Bool} {key : String} {w w' : Json}
    (h : key = f.name → (w.reading ordered).Kept f.shape m m (w'.reading ordered))
    (pre post : List (String × Json)) {a : f.Carrier}
    (ha : fieldUnder f m (sole f.name (Json.membersReading ordered (pre ++ (key, w) :: post))) =
      some a) :
    fieldUnder f m (sole f.name (Json.membersReading ordered (pre ++ (key, w') :: post))) =
      some a := by
  rw [Json.sole_membersReading] at ha ⊢
  by_cases hkey : key = f.name
  · subst hkey
    rw [sole_insert_self] at ha ⊢
    by_cases hmem : f.name ∈ (pre ++ post).map Prod.fst
    · rw [if_pos hmem] at ha
      cases ha
    · rw [if_neg hmem] at ha ⊢
      exact (h rfl).field ha
  · rw [sole_insert_ne hkey] at ha ⊢
    exact ha

/-- The order of members makes no difference to what is read, if it is not looked at. -/
theorem Reordered.kept {v v' : Json} (h : Reordered v v') (s : Shape) (m : ReadMode) :
    (v.reading false).Kept s m m (v'.reading false) := by
  induction h generalizing s m with
  | @here ms ms' h =>
    refine kept_object fun x hx =>
      readObject_kept (fun form hform => ⟨?_, fun f _ a ha => ?_⟩) (fun x hx => ?_) hx
    · exact (form?_congr fun dec name _ _ => by unfold tagOf; rw [sole_perm h]).symm.trans hform
    · rw [objectMode_false] at ha ⊢
      rw [Json.sole_membersReading, ← sole_perm h, ← Json.sole_membersReading]
      exact ha
    · rw [← (Reordered.here h).readName]
      exact hx
  | @item v v' pre post h ih =>
    refine kept_list fun x hx =>
      readList_kept (by simp) (fun p hp => ?_) (fun i w w' t _ hw hw' => ?_) hx
    · rw [← listForm?_item h]
      exact hp
    · rcases getElem?_exchange hw hw' with rfl | ⟨-, rfl, rfl⟩
      · exact .refl t _ _
      · exact ih t (s.partMode m)
  | @member key v v' pre post h ih =>
    refine kept_object fun x hx =>
      readObject_kept (fun form hform => ⟨?_, fun f _ a ha => ?_⟩) (fun x hx => ?_) hx
    · exact (form?_congr fun dec name _ hdec =>
        tagOf_member (hdec v v' h) name pre post).symm.trans hform
    · rw [objectMode_false] at ha ⊢
      exact fieldUnder_exchange (fun _ => ih f.shape _) pre post ha
    · rw [← (Reordered.member h).readName]
      exact hx

end Pseudocode
