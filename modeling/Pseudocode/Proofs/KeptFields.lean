import Pseudocode.Proofs.Decoding

/-! Fields and names that are read to their end first. What is read from them as
the text comes is still read from them then. -/

namespace Pseudocode

/-- Whether one mode is the other or comes after it. -/
def ReadMode.Before (m m' : ReadMode) : Prop := m' = m ∨ m' = .buffered

/-- What one reading gives in a shape, the other gives too. -/
def Reading.Kept (s : Shape) (m m' : ReadMode) (r r' : Reading) : Prop :=
  r'.isNull = r.isNull ∧ ∀ x, r.as s m = some x → r'.as s m' = some x

theorem Reading.Kept.field {f : Field} {m m' : ReadMode} {r r' : Reading}
    (h : r.Kept f.shape m m' r') {a : f.Carrier} (ha : r.field f m = some a) :
    r'.field f m' = some a := by
  obtain ⟨name, s, nullable, absent⟩ := f
  cases nullable with
  | false => exact h.2 a ha
  | true =>
    rw [Reading.field] at ha ⊢
    rw [h.1]
    by_cases hnull : r.isNull = true
    · simpa only [if_pos hnull] using ha
    · rw [if_neg hnull] at ha ⊢
      obtain ⟨x, hx, rfl⟩ := Option.map_eq_some_iff.mp ha
      rw [h.2 x hx, Option.map_some]

section Fields

variable {m m' : ReadMode}

theorem fieldUnder_kept {f : Field} {u u' : Option (Option Reading)}
    (habsent : u = some none → u' = some none)
    (hpresent : ∀ r, u = some (some r) → ∃ r', u' = some (some r') ∧ r.Kept f.shape m m' r')
    {a : f.Carrier} (ha : fieldUnder f m u = some a) : fieldUnder f m' u' = some a := by
  cases u with
  | none => cases ha
  | some r? =>
    cases r? with
    | none =>
      rw [habsent rfl]
      exact ha
    | some r =>
      obtain ⟨r', rfl, hr⟩ := hpresent r rfl
      exact hr.field ha

theorem readFields_kept {fs : List Field} {rs rs' : List (String × Reading)}
    (h : ∀ f ∈ fs, ∀ a, fieldUnder f m (sole f.name rs) = some a →
      fieldUnder f m' (sole f.name rs') = some a) {args : Args fs}
    (hargs : readFields m fs rs = some args) : readFields m' fs rs' = some args := by
  induction fs with
  | nil => exact hargs
  | cons f fs ih =>
    obtain ⟨a, ha, htail⟩ := Option.bind_eq_some_iff.mp hargs
    obtain ⟨rest, hrest, rfl⟩ := Option.map_eq_some_iff.mp htail
    have hfs := ih (fun g hg => h g (List.mem_cons_of_mem f hg)) hrest
    rw [readFields, h f List.mem_cons_self a ha, hfs]
    rfl

theorem readElements_kept {fs : List Field} {rs rs' : List Reading}
    (hlength : rs'.length = rs.length)
    (h : ∀ (i : Nat) (f : Field) (r r' : Reading), fs[i]? = some f → rs[i]? = some r →
      rs'[i]? = some r' → r.Kept f.shape m m' r') {args : Args fs}
    (hargs : readElements m fs rs = some args) : readElements m' fs rs' = some args := by
  induction fs generalizing rs rs' with
  | nil =>
    cases rs with
    | cons r rs => cases hargs
    | nil =>
      rw [List.length_eq_zero_iff.mp hlength]
      exact hargs
  | cons f fs ih =>
    cases rs with
    | nil =>
      obtain rfl := List.length_eq_zero_iff.mp hlength
      obtain ⟨a, ha, htail⟩ := Option.bind_eq_some_iff.mp hargs
      obtain ⟨rest, hrest, rfl⟩ := Option.map_eq_some_iff.mp htail
      have hfs := ih rfl (by simp) hrest
      rw [readElements, ha, Option.bind_some, hfs]
      rfl
    | cons r rs =>
      cases rs' with
      | nil => simp at hlength
      | cons r' rs' =>
        obtain ⟨a, ha, htail⟩ := Option.bind_eq_some_iff.mp hargs
        obtain ⟨rest, hrest, rfl⟩ := Option.map_eq_some_iff.mp htail
        have hr : r.Kept f.shape m m' r' := h 0 f r r' rfl rfl rfl
        have hfs := ih (by simpa using hlength) (fun i g q q' => h (i + 1) g q q') hrest
        rw [readElements, hr.field ha, Option.bind_some, hfs]
        rfl

theorem mapM_kept {s : Shape} {rs rs' : List Reading} (hlength : rs'.length = rs.length)
    (h : ∀ (i : Nat) (r r' : Reading), rs[i]? = some r → rs'[i]? = some r' → r.Kept s m m' r')
    {xs : List s.Carrier} (hxs : rs.mapM (fun r => r.as s m) = some xs) :
    rs'.mapM (fun r => r.as s m') = some xs := by
  induction rs generalizing rs' xs with
  | nil =>
    rw [List.length_eq_zero_iff.mp hlength]
    exact hxs
  | cons r rs ih =>
    cases rs' with
    | nil => simp at hlength
    | cons r' rs' =>
      rw [List.mapM_cons] at hxs ⊢
      obtain ⟨x, hx, htail⟩ := Option.bind_eq_some_iff.mp hxs
      obtain ⟨rest, hrest, hcons⟩ := Option.bind_eq_some_iff.mp htail
      have hr : r'.as s m' = some x := (h 0 r r' rfl rfl).2 x hx
      have hrs := ih (by simpa using hlength) (fun i q q' => h (i + 1) q q') hrest
      rw [hr, hrs]
      exact hcons

end Fields

theorem objectMode_eq {s : Shape} (h : s ≠ .propertyValue) (ordered : Bool) (m : ReadMode)
    (ms : List (String × Json)) : objectMode ordered s m ms = s.partMode m := by
  cases s with
  | propertyValue => exact absurd rfl h
  | _ => rfl

theorem objectMode_false (s : Shape) (m : ReadMode) (ms : List (String × Json)) :
    objectMode false s m ms = s.partMode m := by
  cases s <;> rfl

namespace ReadMode.Before

variable {m m' : ReadMode}

theorem refl (m : ReadMode) : m.Before m := .inl rfl

theorem partMode (h : m.Before m') (s : Shape) : (s.partMode m).Before (s.partMode m') := by
  cases s with
  | propertyKind => exact .inr rfl
  | structValue => exact .inr rfl
  | expr => exact .inr rfl
  | _ => exact h

theorem objectMode (h : m.Before m') {ordered ordered' : Bool}
    (hordered : ordered = true → ordered' = true) (s : Shape) (ms : List (String × Json)) :
    (objectMode ordered s m ms).Before (objectMode ordered' s m' ms) := by
  by_cases hs : s = .propertyValue
  · subst hs
    unfold Pseudocode.objectMode
    by_cases hvalue : (ordered && valueFirst ms) = true
    · rw [Bool.and_eq_true] at hvalue
      rw [hordered hvalue.1, hvalue.2]
      exact .inr rfl
    · rw [if_neg hvalue]
      by_cases hvalue' : (ordered' && valueFirst ms) = true
      · rw [if_pos hvalue']
        exact .inr rfl
      · rw [if_neg hvalue']
        exact h
  · rw [objectMode_eq hs, objectMode_eq hs]
    exact h.partMode s

end ReadMode.Before

theorem decodeTag_kept {α : Type} {all : List α} {tag : α → String} {m m' : ReadMode}
    (h : m.Before m') {d : Draft} {a : α} (ha : (decodeTag all tag m d).toOption = some a) :
    (decodeTag all tag m' d).toOption = some a := by
  rcases h with rfl | rfl
  · exact ha
  · cases m with
    | buffered => exact ha
    | direct =>
      cases d with
      | string q => exact ha
      | _ =>
        rw [decodeTag, toOption_mismatch] at ha
        · cases ha
        all_goals simp

theorem decodeUnit_direct {d : Draft} {x : Unit} (h : decodeUnit .direct d = .ok x) :
    d = .null := by
  cases d with
  | null => rfl
  | _ =>
    have hnone := congrArg Except.toOption h
    rw [decodeUnit, toOption_mismatch] at hnone
    · cases hnone
    all_goals simp

/-- An object that is directly read as a name has nothing but the name, so it can
be read to its end first. -/
theorem decodeName_object_direct {α : Type} {all : List α} {tag : α → String} {tooDeep : Bool}
    {members : List (Quotation × Draft)} {ending : ObjectEnd} {a : α}
    (ha : decodeName all tag .direct (.object tooDeep members ending) = .ok a) :
    decodeName all tag .buffered (.object tooDeep members ending) = .ok a := by
  change (checkDepth tooDeep >>= _) = _ at ha
  obtain ⟨_, -, hmembers⟩ := ok_of_bind ha
  cases members with
  | nil => cases ending <;> cases hmembers
  | cons m rest =>
    obtain ⟨q, d⟩ := m
    obtain ⟨key, hkey, hname⟩ := ok_of_bind hmembers
    obtain ⟨b, hb, hunit⟩ := ok_of_bind hname
    obtain ⟨_, hd, hsingle⟩ := ok_of_bind hunit
    obtain ⟨_, hrest, hab⟩ := ok_of_bind hsingle
    obtain rfl := decodeUnit_direct hd
    obtain rfl := checkSingle_ok hrest
    change (q.read >>= _) = _
    rw [hkey]
    change (chooseName all tag key >>= _) = _
    rw [hb]
    exact hab

theorem decodeName_kept {α : Type} {all : List α} {tag : α → String} {m m' : ReadMode}
    (h : m.Before m') {d : Draft} {a : α} (ha : (decodeName all tag m d).toOption = some a) :
    (decodeName all tag m' d).toOption = some a := by
  rcases h with rfl | rfl
  · exact ha
  · cases m with
    | buffered => exact ha
    | direct =>
      rw [toOption_eq_some] at ha ⊢
      cases d with
      | string q => exact ha
      | object tooDeep members ending => exact decodeName_object_direct ha
      | _ =>
        unfold decodeName at ha
        cases ha

end Pseudocode
