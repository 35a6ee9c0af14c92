import Pseudocode.Proofs.SpelledValues

/-! What decoding the members of an object or the items of a list gives, when
the numbers in them have a spelling. -/

namespace Pseudocode

def Gives {α : Type} (r : Decoded α) (G : α → Prop) : Prop := ∀ x, r = .ok x → G x

namespace Gives

variable {α β : Type} {r : Decoded α} {f : α → Decoded β} {G : α → Prop} {H : β → Prop}

theorem ok {x : α} (h : G x) : Gives (.ok x) G := by
  intro y hy
  cases hy
  exact h

theorem error (e : DecodeError) : Gives (.error e) G := by
  intro y hy
  cases hy

theorem failWith (m : Misfit) : Gives (failWith m) G := error _

theorem bind (h : Gives r G) (hf : ∀ x, G x → Gives (f x) H) : Gives (r >>= f) H := by
  cases r with
  | error e => exact error e
  | ok x => exact hf x (h x rfl)

theorem next (hf : ∀ x, Gives (f x) H) : Gives (r >>= f) H :=
  bind (G := fun _ => True) (fun _ _ => trivial) fun x _ => hf x

theorem mismatch (d : Draft) (expected : String) : Gives (d.mismatch expected) G :=
  next fun _ => failWith _

end Gives

theorem Draft.induction {P : Draft → Prop} (null : P .null) (bool : ∀ b, P (.bool b))
    (number : ∀ n, P (.number n)) (string : ∀ q, P (.string q)) (gap : ∀ g, P (.gap g))
    (list : ∀ tooDeep items ending, (∀ d ∈ items, P d) → P (.list tooDeep items ending))
    (object : ∀ tooDeep members ending, (∀ m ∈ members, P m.2) →
      P (.object tooDeep members ending)) : ∀ d, P d
  | .null => null
  | .bool b => bool b
  | .number n => number n
  | .string q => string q
  | .gap g => gap g
  | .list tooDeep items ending =>
    list tooDeep items ending fun d _ => induction null bool number string gap list object d
  | .object tooDeep members ending =>
    object tooDeep members ending fun m _ => induction null bool number string gap list object m.2
termination_by d => sizeOf d
decreasing_by
  · have hlt := List.sizeOf_lt_of_mem ‹_›
    simp only [Draft.list.sizeOf_spec]
    omega
  · have hlt := List.sizeOf_lt_of_mem ‹_›
    have hsnd : sizeOf m.2 < sizeOf m := by
      cases m
      simp only [Prod.mk.sizeOf_spec]
      omega
    simp only [Draft.object.sizeOf_spec]
    omega

theorem itemsFit_iff {items : List Draft} : itemsFit items ↔ ∀ d ∈ items, d.fits := by
  induction items with
  | nil => simp [itemsFit]
  | cons d items ih => simp [itemsFit, ih]

theorem membersFit_iff {members : List (Quotation × Draft)} :
    membersFit members ↔ ∀ m ∈ members, m.2.fits := by
  induction members with
  | nil => simp [membersFit]
  | cons m members ih => simp [membersFit, ih]

def Draft.givesSpelled (d : Draft) : Prop := ∀ s mode, Gives (decode s mode d) (Spelled s)

theorem Draft.givesSpelled.field {d : Draft} (h : d.givesSpelled) (f : Field) (mode : ReadMode) :
    Gives (readField f d fun s => decode s mode d) (FieldSpelled f) := by
  obtain ⟨name, s, nullable, absent⟩ := f
  cases nullable with
  | false => exact fun x hx => (h s mode x hx).plain
  | true =>
    cases d with
    | null => exact .ok fieldSpelled_none
    | _ => exact (h s mode).bind fun x hx => .ok hx.known

def SlotsSpelled : (fs : List Field) → Slots fs → Prop
  | [], _ => True
  | f :: fs, (slot, slots) => (∀ a, slot = some a → FieldSpelled f a) ∧ SlotsSpelled fs slots

theorem slotsSpelled_empty (fs : List Field) : SlotsSpelled fs (Slots.empty fs) := by
  induction fs with
  | nil => trivial
  | cons f fs ih => exact ⟨fun a h => (by cases h), ih⟩

theorem fill_spelled (name : String) {read : (f : Field) → Decoded f.Carrier}
    (hread : ∀ f, Gives (read f) (FieldSpelled f)) {fs : List Field} {slots : Slots fs}
    (h : SlotsSpelled fs slots) :
    Gives (Slots.fill name read fs slots) fun filled => ∀ slots, filled = some slots →
      SlotsSpelled fs slots := by
  induction fs with
  | nil => exact .ok fun _ hs => (by cases hs)
  | cons f fs ih =>
    obtain ⟨slot, slots⟩ := slots
    rw [Slots.fill_cons]
    split
    · cases slot with
      | some a => exact .failWith _
      | none =>
        refine (hread f).bind fun a ha => .ok ?_
        rintro _ ⟨⟩
        exact ⟨fun b hb => Option.some.inj hb ▸ ha, h.2⟩
    · refine (ih h.2).bind fun filled hfilled => .ok ?_
      intro s hs
      obtain ⟨rest, hrest, rfl⟩ := Option.map_eq_some_iff.mp hs
      exact ⟨h.1, hfilled rest hrest⟩

theorem finish_spelled {fs : List Field} (hfs : fs.all Field.emptyDefault = true) {slots : Slots fs}
    (h : SlotsSpelled fs slots) : Gives (Slots.finish fs slots) (ArgsSpelled fs) := by
  induction fs with
  | nil => exact .ok trivial
  | cons f fs ih =>
    obtain ⟨slot, slots⟩ := slots
    simp only [List.all_cons, Bool.and_eq_true] at hfs
    rw [Slots.finish]
    split
    · next a ha =>
      have hfield : FieldSpelled f a := by
        cases slot with
        | some b => exact h.1 a ha
        | none => exact fieldSpelled_default hfs.1 ha
      exact (ih hfs.2 h.2).bind fun args hargs => .ok ⟨hfield, hargs⟩
    · exact .failWith _

theorem absentItems_spelled (expected : String) (index : Nat) {fs : List Field}
    (hfs : fs.all Field.emptyDefault = true) :
    Gives (absentItems expected index fs) (ArgsSpelled fs) := by
  induction fs generalizing index with
  | nil => exact .ok trivial
  | cons f fs ih =>
    simp only [List.all_cons, Bool.and_eq_true] at hfs
    rw [absentItems]
    split
    · next a ha =>
      exact (ih _ hfs.2).bind fun args hargs => .ok ⟨fieldSpelled_default hfs.1 ha, hargs⟩
    · exact .failWith _

theorem decodeItems_spelled (s : Shape) (mode : ReadMode) {items : List Draft}
    (h : ∀ d ∈ items, d.givesSpelled) :
    Gives (decodeItems s mode items) fun xs => ∀ x ∈ xs, Spelled s x := by
  induction items with
  | nil =>
    rw [decodeItems]
    exact .ok (by simp)
  | cons d items ih =>
    rw [decodeItems]
    refine (h d List.mem_cons_self s mode).bind fun x hx => ?_
    exact (ih fun e he => h e (List.mem_cons_of_mem _ he)).bind fun xs hxs =>
      .ok (List.forall_mem_cons.mpr ⟨hx, hxs⟩)

theorem decodeElements_spelled (expected : String) (mode : ReadMode) (ending : ListEnd)
    (index : Nat) {fs : List Field} (hfs : fs.all Field.emptyDefault = true) {items : List Draft}
    (h : ∀ d ∈ items, d.givesSpelled) :
    Gives (decodeElements expected mode ending index fs items) (ArgsSpelled fs) := by
  induction fs generalizing index items with
  | nil =>
    rw [decodeElements]
    exact .next fun _ => .ok trivial
  | cons f fs ih =>
    cases items with
    | nil =>
      rw [decodeElements]
      · exact .next fun _ => absentItems_spelled expected index hfs
      · simp
    | cons d items =>
      simp only [List.all_cons, Bool.and_eq_true] at hfs
      rw [decodeElements]
      refine ((h d List.mem_cons_self).field f mode).bind fun a ha => ?_
      exact (ih _ hfs.2 fun e he => h e (List.mem_cons_of_mem _ he)).bind fun args hargs =>
        .ok ⟨ha, hargs⟩

theorem decodeMembers_spelled {fs : List Field} (mode : ReadMode) {slots : Slots fs}
    (hslots : SlotsSpelled fs slots) {members : List (Quotation × Draft)}
    (h : ∀ m ∈ members, m.2.givesSpelled) :
    Gives (decodeMembers fs mode slots members) (SlotsSpelled fs) := by
  induction members generalizing slots with
  | nil =>
    rw [decodeMembers]
    exact .ok hslots
  | cons m members ih =>
    obtain ⟨key, d⟩ := m
    have hd := h (key, d) List.mem_cons_self
    have hrest : ∀ m ∈ members, m.2.givesSpelled := fun m hm => h m (List.mem_cons_of_mem _ hm)
    rw [decodeMembers]
    refine .next fun name => ?_
    refine (fill_spelled name (fun f => hd.field f mode) hslots).bind fun filled hfilled => ?_
    cases filled with
    | some slots => exact ih (hfilled slots rfl) hrest
    | none => exact .next fun _ => ih hslots hrest

theorem decodeFields_spelled {fs : List Field} (hfs : fs.all Field.emptyDefault = true)
    (mode : ReadMode) {members : List (Quotation × Draft)} (h : ∀ m ∈ members, m.2.givesSpelled) :
    Gives (decodeMembers fs mode (Slots.empty fs) members) fun slots =>
      Gives (Slots.finish fs slots) (ArgsSpelled fs) :=
  fun slots hslots =>
    finish_spelled hfs (decodeMembers_spelled mode (slotsSpelled_empty fs) h slots hslots)

end Pseudocode
