import Pseudocode.Json.Reader
import Pseudocode.Json.Value

/-! Values as drafts. What remains of a value in the draft of its text is which
numbers its digits stand for, and which of its lists and objects are opened too
deep inside others. -/

namespace Pseudocode

def numeralDraft (cs : List Char) : Draft :=
  match readNumber cs with
  | .ok (p, _) => .number p.number
  | .error _ => .null

abbrev Quotation.closed (s : String) : Quotation := ⟨.ok s, .ok ()⟩

mutual

/-- The draft of a value inside which `room` more lists and objects may be opened,
or any number of them. -/
def Json.draft (room : Option Nat) : Json → Draft
  | .null => .null
  | .bool value => .bool value
  | .int value => numeralDraft (toString value).toList
  | .narrow value => (value.storedText.map fun t => numeralDraft t.toList).getD .null
  | .wide value => (value.storedText.map fun t => numeralDraft t.toList).getD .null
  | .string value => .string (.closed value)
  | .list items => .list (room = some 0) (Json.itemsDraft (room.map (· - 1)) items) .closed
  | .object members =>
    .object (room = some 0) (Json.membersDraft (room.map (· - 1)) members) .closed

def Json.itemsDraft (room : Option Nat) : List Json → List Draft
  | [] => []
  | v :: rest => v.draft room :: Json.itemsDraft room rest

def Json.membersDraft (room : Option Nat) : List (String × Json) → List (Quotation × Draft)
  | [] => []
  | (key, v) :: rest => (.closed key, v.draft room) :: Json.membersDraft room rest

end

namespace Json

def isLeaf : Json → Bool
  | list _ => false
  | object _ => false
  | _ => true

theorem induction {P : Json → Prop} (leaf : ∀ v, v.isLeaf = true → P v)
    (list : ∀ items, (∀ v ∈ items, P v) → P (.list items))
    (object : ∀ members, (∀ m ∈ members, P m.2) → P (.object members)) : ∀ v, P v
  | .list items => list items fun v _ => induction leaf list object v
  | .object members => object members fun m _ => induction leaf list object m.2
  | .null | .bool _ | .int _ | .narrow _ | .wide _ | .string _ => leaf _ rfl
termination_by v => sizeOf v
decreasing_by
  · have hlt := List.sizeOf_lt_of_mem ‹_›
    simp only [Json.list.sizeOf_spec]
    omega
  · have hlt := List.sizeOf_lt_of_mem ‹_›
    have hsnd : sizeOf m.2 < sizeOf m := by
      cases m
      simp only [Prod.mk.sizeOf_spec]
      omega
    simp only [Json.object.sizeOf_spec]
    omega

theorem itemsDraft_eq (room : Option Nat) (items : List Json) :
    itemsDraft room items = items.map (draft room) := by
  induction items with
  | nil => rfl
  | cons v items ih => rw [itemsDraft, ih, List.map_cons]

theorem membersDraft_eq (room : Option Nat) (members : List (String × Json)) :
    membersDraft room members = members.map fun m => (.closed m.1, m.2.draft room) := by
  induction members with
  | nil => rfl
  | cons m members ih => rw [membersDraft, ih, List.map_cons]

theorem itemsDepth_le {items : List Json} {r : Nat} :
    itemsDepth items ≤ r ↔ ∀ v ∈ items, v.depth ≤ r := by
  induction items with
  | nil => simp [itemsDepth]
  | cons v items ih => rw [itemsDepth, Nat.max_le, ih, List.forall_mem_cons]

theorem membersDepth_le {members : List (String × Json)} {r : Nat} :
    membersDepth members ≤ r ↔ ∀ m ∈ members, m.2.depth ≤ r := by
  induction members with
  | nil => simp [membersDepth]
  | cons m members ih => rw [membersDepth, Nat.max_le, ih, List.forall_mem_cons]

theorem depth_leaf {v : Json} (h : v.isLeaf = true) : v.depth = 0 := by
  cases v with
  | list items => cases h
  | object members => cases h
  | _ => rfl

theorem draft_leaf {v : Json} (h : v.isLeaf = true) (room room' : Option Nat) :
    v.draft room = v.draft room' := by
  cases v with
  | list items => cases h
  | object members => cases h
  | _ => rfl

/-- A value for which there is room enough has nothing that is too deep. -/
theorem draft_room {v : Json} {r : Nat} (h : v.depth ≤ r) : v.draft (some r) = v.draft none := by
  induction v using Json.induction generalizing r with
  | leaf v hleaf => exact draft_leaf hleaf _ _
  | list items ih =>
    rw [depth] at h
    obtain ⟨r, rfl⟩ : ∃ k, r = k + 1 := ⟨r - 1, by omega⟩
    have hitems : items.map (draft (some r)) = items.map (draft none) :=
      List.map_congr_left fun v hv => ih v hv (itemsDepth_le.mp (Nat.le_of_succ_le_succ h) v hv)
    simp [draft, itemsDraft_eq, hitems]
  | object members ih =>
    rw [depth] at h
    obtain ⟨r, rfl⟩ : ∃ k, r = k + 1 := ⟨r - 1, by omega⟩
    have hmembers : members.map (fun m => (Quotation.closed m.1, m.2.draft (some r))) =
        members.map fun m => (Quotation.closed m.1, m.2.draft none) :=
      List.map_congr_left fun m hm => by
        rw [ih m hm (membersDepth_le.mp (Nat.le_of_succ_le_succ h) m hm)]
    simp [draft, membersDraft_eq, hmembers]

mutual

def leaves : Json → List Json
  | list items => itemsLeaves items
  | object members => membersLeaves members
  | v => [v]

def itemsLeaves : List Json → List Json
  | [] => []
  | v :: rest => v.leaves ++ itemsLeaves rest

def membersLeaves : List (String × Json) → List Json
  | [] => []
  | (_, v) :: rest => v.leaves ++ membersLeaves rest

end

theorem mem_itemsLeaves {w : Json} {items : List Json} :
    w ∈ itemsLeaves items ↔ ∃ v ∈ items, w ∈ v.leaves := by
  induction items with
  | nil => simp [itemsLeaves]
  | cons v items ih => simp [itemsLeaves, ih]

theorem mem_membersLeaves {w : Json} {members : List (String × Json)} :
    w ∈ membersLeaves members ↔ ∃ m ∈ members, w ∈ m.2.leaves := by
  induction members with
  | nil => simp [membersLeaves]
  | cons m members ih => simp [membersLeaves, ih]

theorem leaves_leaf {v : Json} (h : v.isLeaf = true) : v.leaves = [v] := by
  cases v with
  | list items => cases h
  | object members => cases h
  | _ => rfl

def everyLeaf (p : Json → Prop) (v : Json) : Prop := ∀ w ∈ v.leaves, p w

theorem everyLeaf_leaf {p : Json → Prop} {v : Json} (h : v.isLeaf = true) :
    v.everyLeaf p ↔ p v := by
  simp [everyLeaf, leaves_leaf h]

theorem everyLeaf_list {p : Json → Prop} {items : List Json} :
    (list items).everyLeaf p ↔ ∀ v ∈ items, v.everyLeaf p := by
  simp only [everyLeaf, leaves, mem_itemsLeaves]
  exact ⟨fun h v hv w hw => h w ⟨v, hv, hw⟩, fun h w ⟨v, hv, hw⟩ => h v hv w hw⟩

theorem everyLeaf_object {p : Json → Prop} {members : List (String × Json)} :
    (object members).everyLeaf p ↔ ∀ m ∈ members, m.2.everyLeaf p := by
  simp only [everyLeaf, leaves, mem_membersLeaves]
  exact ⟨fun h m hm w hw => h w ⟨m, hm, hw⟩, fun h w ⟨m, hm, hw⟩ => h m hm w hw⟩

mutual

def objects : Json → List (List (String × Json))
  | list items => itemsObjects items
  | object ms => ms :: membersObjects ms
  | _ => []

def itemsObjects : List Json → List (List (String × Json))
  | [] => []
  | v :: rest => v.objects ++ itemsObjects rest

def membersObjects : List (String × Json) → List (List (String × Json))
  | [] => []
  | (_, v) :: rest => v.objects ++ membersObjects rest

end

theorem itemsObjects_eq (items : List Json) : itemsObjects items = items.flatMap objects := by
  induction items with
  | nil => rfl
  | cons v items ih => rw [itemsObjects, ih, List.flatMap_cons]

theorem membersObjects_eq (members : List (String × Json)) :
    membersObjects members = members.flatMap fun m => m.2.objects := by
  induction members with
  | nil => rfl
  | cons m members ih => rw [membersObjects, ih, List.flatMap_cons]

theorem mem_itemsObjects {ms : List (String × Json)} {items : List Json} {v : Json} (hv : v ∈ items)
    (h : ms ∈ v.objects) : ms ∈ itemsObjects items := by
  rw [itemsObjects_eq]
  exact List.mem_flatMap.mpr ⟨v, hv, h⟩

theorem mem_membersObjects {ms members : List (String × Json)} {m : String × Json}
    (hm : m ∈ members) (h : ms ∈ m.2.objects) : ms ∈ membersObjects members := by
  rw [membersObjects_eq]
  exact List.mem_flatMap.mpr ⟨m, hm, h⟩

/-- Whether no number of a value is too large to be read. -/
def inRange : Json → Prop := everyLeaf fun w => (w.draft none).fault? = none

abbrev roomFault (depth r : Nat) : Option Fault := if depth ≤ r then none else some .tooDeep

theorem roomFault_or (a b r : Nat) :
    (roomFault a r).or (roomFault b r) = roomFault (max a b) r := by
  by_cases ha : a ≤ r
  · have hmax : max a b ≤ r ↔ b ≤ r := by omega
    simp [roomFault, ha, hmax]
  · have hmax : ¬ max a b ≤ r := by omega
    simp [roomFault, ha, hmax]

theorem itemsFault?_draft {items : List Json} {r : Nat}
    (h : ∀ v ∈ items, (v.draft (some r)).fault? = roomFault v.depth r) :
    itemsFault? (items.map (draft (some r))) = roomFault (itemsDepth items) r := by
  induction items with
  | nil => simp [itemsFault?, itemsDepth]
  | cons v items ih =>
    have hitems := ih fun w hw => h w (List.mem_cons_of_mem v hw)
    rw [List.map_cons, itemsFault?, h v List.mem_cons_self, hitems, roomFault_or, itemsDepth]

theorem membersFault?_draft {members : List (String × Json)} {r : Nat}
    (h : ∀ m ∈ members, (m.2.draft (some r)).fault? = roomFault m.2.depth r) :
    membersFault? (membersDraft (some r) members) = roomFault (membersDepth members) r := by
  induction members with
  | nil => simp [membersFault?, membersDepth, membersDraft]
  | cons m members ih =>
    have hmembers := ih fun w hw => h w (List.mem_cons_of_mem m hw)
    rw [membersDraft, membersFault?, h m List.mem_cons_self, hmembers, roomFault_or, membersDepth]
    rfl

/-- The only fault of a value without numbers too large is that it is too deep. -/
theorem fault?_draft {v : Json} (h : v.inRange) (r : Nat) :
    (v.draft (some r)).fault? = roomFault v.depth r := by
  induction v using Json.induction generalizing r with
  | leaf v hleaf =>
    rw [draft_leaf hleaf _ none, (everyLeaf_leaf hleaf).mp h, depth_leaf hleaf]
    simp
  | list items ih =>
    rw [draft, Draft.fault?, depth]
    cases r with
    | zero => simp
    | succ r =>
      have hitems := itemsFault?_draft (r := r) fun v hv => ih v hv (everyLeaf_list.mp h v hv) r
      simp [itemsDraft_eq, hitems, ListEnd.fault?, roomFault]
  | object members ih =>
    rw [draft, Draft.fault?, depth]
    cases r with
    | zero => simp
    | succ r =>
      have hmembers :=
        membersFault?_draft (r := r) fun m hm => ih m hm (everyLeaf_object.mp h m hm) r
      simp [hmembers, ObjectEnd.fault?, roomFault]

theorem fault?_draft_none {v : Json} (h : v.inRange) : (v.draft none).fault? = none := by
  rw [← draft_room (Nat.le_refl v.depth), fault?_draft h, roomFault, if_pos (Nat.le_refl v.depth)]

/-- To one who passes over a value, nothing is wrong with it. -/
theorem skipFault?_draft (v : Json) (room : Option Nat) : (v.draft room).skipFault? = none := by
  induction v using Json.induction generalizing room with
  | leaf v hleaf =>
    have hnumeral (cs : List Char) : (numeralDraft cs).skipFault? = none := by
      unfold numeralDraft
      split <;> simp [Draft.skipFault?]
    cases v with
    | list items => cases hleaf
    | object members => cases hleaf
    | int value => exact hnumeral _
    | narrow value =>
      cases ht : value.storedText with
      | none => simp [draft, ht, Draft.skipFault?]
      | some t => simpa [draft, ht] using hnumeral t.toList
    | wide value =>
      cases ht : value.storedText with
      | none => simp [draft, ht, Draft.skipFault?]
      | some t => simpa [draft, ht] using hnumeral t.toList
    | null => simp [draft, Draft.skipFault?]
    | bool value => simp [draft, Draft.skipFault?]
    | string value => simp [draft, Draft.skipFault?, Quotation.skipFault?]
  | list items ih =>
    have hitems (room : Option Nat) : itemsSkipFault? (items.map (draft room)) = none := by
      induction items with
      | nil => rfl
      | cons v items ihitems =>
        have hrest := ihitems fun w hw => ih w (List.mem_cons_of_mem v hw)
        rw [List.map_cons, itemsSkipFault?, ih v List.mem_cons_self, hrest]
        rfl
    simp [draft, Draft.skipFault?, itemsDraft_eq, hitems, ListEnd.skipFault?, ListEnd.fault?]
  | object members ih =>
    have hmembers (room : Option Nat) : membersSkipFault? (membersDraft room members) = none := by
      induction members with
      | nil => rfl
      | cons m members ihmembers =>
        have hrest := ihmembers fun w hw => ih w (List.mem_cons_of_mem m hw)
        rw [membersDraft, membersSkipFault?, ih m List.mem_cons_self, hrest]
        rfl
    simp [draft, Draft.skipFault?, hmembers, ObjectEnd.skipFault?, ObjectEnd.fault?]

end Json

end Pseudocode
