import Pseudocode.Proofs.CutText
import Pseudocode.Proofs.Faultless
import Pseudocode.Wire.Stored

/-! Steps of decoding that fail only because the text ends. What is left of a
value in range has no other fault, and is decoded up to the break as before. -/

namespace Pseudocode

/-- Whether the end of the text is the only error that a step of decoding can give. -/
def FailsAtEnd {α : Type} (r : Decoded α) : Prop := ∀ e, r = .error e → e.category = .endOfText

def EndsEarly {α : Type} (r : Decoded α) : Prop := ∃ e, r = .error e ∧ e.category = .endOfText

theorem failsAtEnd_ok {α : Type} (x : α) : FailsAtEnd (.ok x : Decoded α) := by
  intro e he
  cases he

theorem endsEarly_fault {α : Type} {f : Fault} (h : f.isEnd = true) :
    EndsEarly (.error (.fault f) : Decoded α) :=
  ⟨_, rfl, if_pos h⟩

theorem EndsEarly.failsAtEnd {α : Type} {r : Decoded α} (h : EndsEarly r) : FailsAtEnd r := by
  obtain ⟨e, rfl, hcategory⟩ := h
  intro e' he
  cases he
  exact hcategory

theorem EndsEarly.bind {α β : Type} {r : Decoded α} (h : EndsEarly r) (f : α → Decoded β) :
    EndsEarly (r >>= f) := by
  obtain ⟨e, rfl, hcategory⟩ := h
  exact ⟨e, rfl, hcategory⟩

theorem FailsAtEnd.bind {α β : Type} {r : Decoded α} {f : α → Decoded β} (h : FailsAtEnd r)
    (hf : ∀ x, r = .ok x → FailsAtEnd (f x)) : FailsAtEnd (r >>= f) := by
  cases r with
  | error e => exact EndsEarly.failsAtEnd ⟨e, rfl, h e rfl⟩
  | ok x => exact hf x rfl

theorem FailsAtEnd.endsEarly_bind {α β : Type} {r : Decoded α} {f : α → Decoded β}
    (h : FailsAtEnd r) (hf : ∀ x, r = .ok x → EndsEarly (f x)) : EndsEarly (r >>= f) := by
  cases r with
  | error e => exact ⟨e, rfl, h e rfl⟩
  | ok x => exact hf x rfl

def IsEndFault (fault? : Option Fault) : Prop := ∀ f, fault? = some f → f.isEnd = true

theorem IsEndFault.or {a b : Option Fault} (ha : IsEndFault a) (hb : IsEndFault b) :
    IsEndFault (a.or b) := by
  cases a with
  | none => exact hb
  | some f => exact ha

theorem isEndFault_none : IsEndFault none := by
  intro f hf
  cases hf

theorem isEndFault_some {f : Fault} (h : f.isEnd = true) : IsEndFault (some f) := by
  intro f' hf
  cases hf
  exact h

theorem IsEndFault.failsAtEnd {fault? : Option Fault} (h : IsEndFault fault?) :
    FailsAtEnd (checkFault fault?) := by
  cases fault? with
  | none => exact failsAtEnd_ok ()
  | some f => exact (endsEarly_fault (h f rfl)).failsAtEnd

theorem MembersCut.fault? {part : Json → Draft → Prop} {ms : List (String × Json)}
    {ds : List (Quotation × Draft)} {ending : ObjectEnd} (h : MembersCut part ms ds ending) :
    ∃ f, ending.fault? = some f ∧ f.isEnd = true := by
  induction h with
  | behind h ih => exact ih
  | comma => exact ⟨.endInValue, rfl, rfl⟩
  | _ => exact ⟨.endInObject, rfl, rfl⟩

theorem MembersCut.endsEarly {part : Json → Draft → Prop} {ms : List (String × Json)}
    {ds : List (Quotation × Draft)} {ending : ObjectEnd} (h : MembersCut part ms ds ending) :
    EndsEarly (checkFault ending.fault?) := by
  obtain ⟨f, hf, hend⟩ := h.fault?
  rw [hf]
  exact endsEarly_fault hend

theorem Quotation.isEndFault {q : Quotation} (h : q.content = .error .endInString) :
    IsEndFault q.fault? := by
  rw [Quotation.fault?, h]
  exact isEndFault_some rfl

namespace Json

theorem isEndFault_items {items : List Json}
    (hitems : ∀ v ∈ items, ∀ d, v.Cut d → IsEndFault d.fault?)
    (hwhole : ∀ v ∈ items, (v.draft none).fault? = none) {ds : List Draft}
    (h : ItemsCut Cut items ds) : IsEndFault (itemsFault? ds) := by
  induction h with
  | before => exact isEndFault_none
  | inside hd => exact (hitems _ List.mem_cons_self _ hd).or isEndFault_none
  | behind h ih =>
    obtain ⟨hv, hrest⟩ := List.forall_mem_cons.mp hwhole
    rw [itemsFault?, hv]
    exact ih (fun w hw => hitems w (List.mem_cons_of_mem _ hw)) hrest

theorem isEndFault_members {ms : List (String × Json)}
    (hms : ∀ m ∈ ms, ∀ d, m.2.Cut d → IsEndFault d.fault?)
    (hwhole : ∀ m ∈ ms, (m.2.draft none).fault? = none) {ds : List (Quotation × Draft)}
    {ending : ObjectEnd} (h : MembersCut Cut ms ds ending) : IsEndFault (membersFault? ds) := by
  induction h with
  | before => exact isEndFault_none
  | key hq => exact (Quotation.isEndFault hq).or (isEndFault_some rfl)
  | colon => exact isEndFault_some rfl
  | inside hd => exact (hms _ List.mem_cons_self _ hd).or isEndFault_none
  | comma =>
    obtain ⟨hv, -⟩ := List.forall_mem_cons.mp hwhole
    rw [membersFault?, hv]
    exact isEndFault_none
  | behind h ih =>
    obtain ⟨hv, hrest⟩ := List.forall_mem_cons.mp hwhole
    rw [membersFault?, hv]
    exact ih (fun m hm => hms m (List.mem_cons_of_mem _ hm)) hrest

/-- What is left of a value without a fault has none but the end of the text. -/
theorem Cut.isEndFault {v : Json} (hwhole : (v.draft none).fault? = none) {d : Draft}
    (h : v.Cut d) : IsEndFault d.fault? := by
  induction v using Json.induction generalizing d with
  | leaf v hleaf =>
    cases h with
    | nothing => exact isEndFault_some rfl
    | unfinished _ _ hg => rcases hg with rfl | rfl <;> exact isEndFault_some rfl
    | @number _ whole part _ hpart =>
      cases part with
      | outOfRange => exact absurd rfl hpart.inRange
      | int i => exact isEndFault_none
      | real x => exact isEndFault_none
    | string hq => exact Quotation.isEndFault hq
    | list => cases hleaf
    | object => cases hleaf
  | list items ih =>
    obtain ⟨-, hitems⟩ := fault?_list.mp hwhole
    cases h with
    | nothing => exact isEndFault_some rfl
    | unfinished hleaf => cases hleaf
    | number hv => cases hv
    | list h =>
      exact (isEndFault_items (fun v hv d hd => ih v hv (hitems v hv) hd) hitems h).or
        (isEndFault_some rfl)
  | object ms ih =>
    obtain ⟨-, hms⟩ := fault?_object.mp hwhole
    cases h with
    | nothing => exact isEndFault_some rfl
    | unfinished hleaf => cases hleaf
    | number hv => cases hv
    | object h =>
      obtain ⟨f, hf, hend⟩ := h.fault?
      exact (isEndFault_members (fun m hm d hd => ih m hm (hms m hm) hd) hms h).or
        (hf ▸ isEndFault_some hend)

end Json

theorem Quotation.read_cut {q : Quotation} (h : q.content = .error .endInString) :
    EndsEarly q.read := by
  rw [Quotation.read, h]
  exact endsEarly_fault rfl

theorem endsEarly_mismatch {α : Type} {g : Gap} (h : g.fault.isEnd = true) (expected : String) :
    EndsEarly ((Draft.gap g).mismatch expected : Decoded α) :=
  endsEarly_fault h

theorem decode_gap {s : Shape} (hs : s.isName = false) {g : Gap} (h : g.fault.isEnd = true) :
    EndsEarly (decode s .direct (.gap g)) := by
  cases s with
  | structuralKind => cases hs
  | conversion => cases hs
  | int w => rw [decode]; exact endsEarly_mismatch h _
  | narrow => rw [decode]; exact endsEarly_mismatch h _
  | wide => rw [decode]; exact endsEarly_mismatch h _
  | bool => rw [decode]; exact endsEarly_mismatch h _
  | text => rw [decode]; exact endsEarly_mismatch h _
  | expr => rw [decode]; exact endsEarly_mismatch h _; simp
  | _ =>
    rw [decode]
    · exact endsEarly_mismatch h _
    all_goals simp

theorem decode_missing (s : Shape) {g : Gap} (hg : g = .nothing ∨ g = .colon true) :
    EndsEarly (decode s .direct (.gap g)) := by
  have hend : g.fault.isEnd = true := by rcases hg with rfl | rfl <;> rfl
  cases s with
  | structuralKind =>
    rw [decode]
    rcases hg with rfl | rfl <;> exact endsEarly_fault rfl
  | conversion =>
    rw [decode]
    rcases hg with rfl | rfl <;> exact endsEarly_fault rfl
  | _ => exact decode_gap rfl hend

/-- What is claimed of every value that something is decoded from as it is read.
Names are written as strings. -/
structure BreaksOff (s : Shape) (v : Json) (x : s.Carrier) : Prop where
  name : s.isName = true → ∃ t, v = .string t
  decode : ∀ y, decode s .direct (v.draft none) = .ok y → ∀ d, v.Cut d →
    FailsAtEnd (decode s .direct d)

theorem Json.Cut.failsAtEnd_gap {s : Shape} {v : Json} {g : Gap} (h : v.Cut (.gap g))
    (hname : s.isName = true → ∃ t, v = .string t) :
    FailsAtEnd (Pseudocode.decode s .direct (.gap g)) := by
  cases h with
  | nothing => exact (decode_missing s (.inl rfl)).failsAtEnd
  | unfinished _ hv hg =>
    have hs : s.isName = false := by
      cases hs : s.isName with
      | false => rfl
      | true =>
        obtain ⟨t, ht⟩ := hname hs
        exact absurd ht (hv t)
    exact (decode_gap hs (by rcases hg with rfl | rfl <;> rfl)).failsAtEnd

theorem failsAtEnd_readField {f : Field} {d : Draft} (hd : d ≠ .null)
    (h : FailsAtEnd (decode f.shape .direct d)) :
    FailsAtEnd (readField f d fun s => decode s .direct d) := by
  obtain ⟨name, s, nullable, absent⟩ := f
  cases nullable with
  | false => exact h
  | true =>
    rw [readField_nullable hd]
    exact h.bind fun x _ => failsAtEnd_ok (some x)

def FieldBreaksOff (f : Field) (v : Json) : Prop :=
  ∀ b, (readField f (v.draft none) fun s => decode s .direct (v.draft none)) = .ok b →
    ∀ d, v.Cut d → FailsAtEnd (readField f d fun s => decode s .direct d)

theorem AsField.breaksOff {f : Field} {v : Json} {a : f.Carrier} (h : AsField BreaksOff f v a) :
    FieldBreaksOff f v := by
  intro b hread d hd
  have hne : d ≠ .null := by
    rintro rfl
    cases hd
  refine failsAtEnd_readField hne ?_
  cases h with
  | null hs =>
    cases hd with
    | nothing => exact (decode_missing _ (.inl rfl)).failsAtEnd
    | unfinished hleaf hv hg =>
      exact (Json.Cut.unfinished hleaf hv hg).failsAtEnd_gap (fun h => by simp [hs] at h)
    | number hv => cases hv
  | plain h => exact h.decode b hread d hd
  | known h =>
    by_cases hnull : v.draft none = .null
    · cases hd with
      | nothing => exact (decode_missing _ (.inl rfl)).failsAtEnd
      | unfinished hleaf hv hg => exact (Json.Cut.unfinished hleaf hv hg).failsAtEnd_gap h.name
      | number hv =>
        rw [hv] at hnull
        cases hnull
      | string => cases hnull
      | list => cases hnull
      | object => cases hnull
    · rw [readField_nullable hnull] at hread
      obtain ⟨y, hy, -⟩ := ok_of_bind hread
      exact h.decode y hy d hd

end Pseudocode
