import Pseudocode.Proofs.Faultless
import Pseudocode.Proofs.Respelling
import Pseudocode.Wire.Stored

/-! Objects that are decoded have every member that is looked for at most once,
whatever way their members are gone through. -/

namespace Pseudocode

def under (name : String) (members : List (Quotation × Draft)) : List Draft :=
  (members.filter fun m => m.1.content = .ok name).map Prod.snd

section Under

variable {name other : String} {key : Quotation} {d : Draft} {rest : List (Quotation × Draft)}

theorem Quotation.content_of_read (h : key.read = .ok name) : key.content = .ok name := by
  unfold Quotation.read at h
  cases hcontent : key.content with
  | error f =>
    rw [hcontent] at h
    cases h
  | ok s =>
    rw [hcontent] at h
    cases h
    rfl

theorem under_cons_self (h : key.read = .ok name) :
    under name ((key, d) :: rest) = d :: under name rest := by
  simp [under, Quotation.content_of_read h]

theorem under_cons_ne (h : key.read = .ok other) (hne : other ≠ name) :
    under name ((key, d) :: rest) = under name rest := by
  simp [under, Quotation.content_of_read h, hne]

end Under

/-- Whether an object has at most one member of a name, and what stands under the
name has a property. -/
structure Once (name : String) (members : List (Quotation × Draft)) (P : Draft → Prop) : Prop where
  single : (under name members).length ≤ 1
  holds : ∀ d ∈ under name members, P d

namespace Once

variable {name other : String} {key : Quotation} {d : Draft}
  {members rest : List (Quotation × Draft)} {P Q : Draft → Prop}

theorem of_nil (h : under name members = []) : Once name members P := ⟨by simp [h], by simp [h]⟩

theorem first (hkey : key.read = .ok name) (hd : P d) (hrest : under name rest = []) :
    Once name ((key, d) :: rest) P := by
  have hunder : under name ((key, d) :: rest) = [d] := by rw [under_cons_self hkey, hrest]
  exact ⟨by simp [hunder], by simpa [hunder] using hd⟩

theorem skip (hkey : key.read = .ok other) (hne : other ≠ name) (h : Once name rest P) :
    Once name ((key, d) :: rest) P := by
  have hunder : under name ((key, d) :: rest) = under name rest := under_cons_ne hkey hne
  exact ⟨hunder ▸ h.single, hunder ▸ h.holds⟩

theorem imp (h : Once name members P) (hPQ : ∀ d, P d → Q d) : Once name members Q :=
  ⟨h.single, fun d hd => hPQ d (h.holds d hd)⟩

end Once

/-- Whether something is decoded from a draft in a shape. Where nothing needs to
be decoded, `null` is as good. -/
def Accepted (s : Shape) (d : Draft) : Prop := d = .null ∨ ∃ mode y, decode s mode d = .ok y

theorem Accepted.decoded {s : Shape} {d : Draft} (h : Accepted s d) (hd : d ≠ .null) :
    ∃ mode y, decode s mode d = .ok y := h.resolve_left hd

theorem accepted_field {f : Field} {d : Draft} {mode : ReadMode} {a : f.Carrier}
    (h : (readField f d fun s => decode s mode d) = .ok a) : Accepted f.shape d := by
  obtain ⟨name, s, nullable, absent⟩ := f
  cases nullable with
  | false => exact .inr ⟨mode, a, h⟩
  | true =>
    by_cases hnull : d = .null
    · exact .inl hnull
    · rw [readField_nullable hnull] at h
      obtain ⟨y, hy, -⟩ := ok_of_bind h
      exact .inr ⟨mode, y, hy⟩

namespace Slots

def isFilled (name : String) : (fs : List Field) → Slots fs → Bool
  | [], _ => false
  | f :: fs, (slot, slots) => if f.name = name then slot.isSome else isFilled name fs slots

variable {name other : String} {read : (f : Field) → Decoded f.Carrier} {fs : List Field}
  {slots slots' : Slots fs}

theorem isFilled_cons (f : Field) (slot : Option f.Carrier) (slots : Slots fs) :
    isFilled name (f :: fs) (slot, slots) = if f.name = name then slot.isSome
      else isFilled name fs slots :=
  rfl

theorem fill_isFilled (h : fill name read fs slots = .ok (some slots')) :
    isFilled name fs slots = false ∧ isFilled name fs slots' = true := by
  induction fs with
  | nil => cases h
  | cons f fs ih =>
    obtain ⟨slot, slots⟩ := slots
    obtain ⟨hname, rfl, a, -, rfl⟩ | ⟨hname, slots'', hfill, rfl⟩ := fill_cases h
    · simp [isFilled_cons, hname]
    · simpa [isFilled_cons, hname] using ih hfill

theorem fill_other (hne : name ≠ other) (h : fill name read fs slots = .ok (some slots')) :
    isFilled other fs slots' = isFilled other fs slots := by
  induction fs with
  | nil => cases h
  | cons f fs ih =>
    obtain ⟨slot, slots⟩ := slots
    obtain ⟨hname, rfl, a, -, rfl⟩ | ⟨hname, slots'', hfill, rfl⟩ := fill_cases h
    · simp [isFilled_cons, hname, hne]
    · simp [isFilled_cons, ih hfill]

end Slots

theorem decodeMembers_ok {fs : List Field} {mode : ReadMode} {slots slots' : Slots fs}
    {key : Quotation} {d : Draft} {rest : List (Quotation × Draft)}
    (h : decodeMembers fs mode slots ((key, d) :: rest) = .ok slots') :
    ∃ name filled, key.read = .ok name ∧
      Slots.fill name (fun f => readField f d fun s => decode s mode d) fs slots = .ok filled ∧
      decodeMembers fs mode (filled.getD slots) rest = .ok slots' := by
  rw [decodeMembers] at h
  obtain ⟨name, hname, h⟩ := ok_of_bind h
  obtain ⟨filled, hfill, h⟩ := ok_of_bind h
  cases filled with
  | some slots'' => exact ⟨name, some slots'', hname, hfill, h⟩
  | none =>
    obtain ⟨_, -, h⟩ := ok_of_bind h
    exact ⟨name, none, hname, hfill, h⟩

theorem decodeMembers_once {fs : List Field} (hnodup : (fs.map Field.name).Nodup) {f : Field}
    (hf : f ∈ fs) {mode : ReadMode} {slots slots' : Slots fs} {members : List (Quotation × Draft)}
    (h : decodeMembers fs mode slots members = .ok slots') :
    (Slots.isFilled f.name fs slots = true → under f.name members = []) ∧
      Once f.name members (Accepted f.shape) := by
  induction members generalizing slots with
  | nil => exact ⟨fun _ => rfl, .of_nil rfl⟩
  | cons m members ih =>
    obtain ⟨key, d⟩ := m
    obtain ⟨name, filled, hname, hfill, hrest⟩ := decodeMembers_ok h
    obtain ⟨hfilled, honce⟩ := ih hrest
    by_cases heq : name = f.name
    · subst heq
      obtain ⟨slots'', rfl⟩ := Slots.fill_known (List.mem_map_of_mem hf) hfill
      obtain ⟨hempty, hfull⟩ := Slots.fill_isFilled hfill
      obtain ⟨g, hg, hsame, a, hread⟩ := Slots.fill_some hfill
      obtain rfl : g = f := List.inj_on_of_nodup_map hnodup hg hf hsame
      exact ⟨fun hslot => absurd (hempty.symm.trans hslot) (by simp),
        .first hname (accepted_field hread) (hfilled hfull)⟩
    · have hkept :
          Slots.isFilled f.name fs (filled.getD slots) = Slots.isFilled f.name fs slots := by
        cases filled with
        | none => rfl
        | some slots'' => exact Slots.fill_other heq hfill
      exact ⟨fun hslot => (under_cons_ne hname heq).trans (hfilled (hkept.trans hslot)),
        .skip hname heq honce⟩

theorem findTag_once {α : Type} {name : String} {dec : Draft → Decoded α} {mode : ReadMode}
    {found found' : Option α} {members : List (Quotation × Draft)}
    (h : findTag name dec mode found members = .ok found') :
    (∀ t, found = some t → found' = some t ∧ under name members = []) ∧
      Once name members fun d => ∃ t, dec d = .ok t ∧ found' = some t := by
  induction members generalizing found with
  | nil =>
    rw [findTag] at h
    cases h
    exact ⟨fun t ht => ⟨ht, rfl⟩, .of_nil rfl⟩
  | cons m members ih =>
    obtain ⟨key, d⟩ := m
    unfold findTag at h
    obtain ⟨other, hkey, h⟩ := ok_of_bind h
    split at h
    · next heq =>
      subst heq
      cases found with
      | some t => cases h
      | none =>
        obtain ⟨t, ht, h⟩ := ok_of_bind h
        obtain ⟨hfound, hrest⟩ := (ih h).1 t rfl
        exact ⟨fun t ht => (by cases ht), .first hkey ⟨t, ht, hfound⟩ hrest⟩
    · next hne =>
      obtain ⟨_, -, h⟩ := ok_of_bind h
      obtain ⟨hfound, honce⟩ := ih h
      exact ⟨fun t ht => ⟨(hfound t ht).1, (under_cons_ne hkey hne).trans (hfound t ht).2⟩,
        .skip hkey hne honce⟩

theorem requireTag_once {α : Type} {name : String} {dec : Draft → Decoded α} {mode : ReadMode}
    {members : List (Quotation × Draft)} {ending : ObjectEnd} {t : α}
    (h : requireTag name dec mode members ending = .ok t) :
    Once name members fun d => dec d = .ok t := by
  obtain ⟨found, hfind, h⟩ := ok_of_bind h
  obtain ⟨_, -, h⟩ := ok_of_bind h
  cases found with
  | none => cases h
  | some t' =>
    cases h
    refine (findTag_once hfind).2.imp fun d hd => ?_
    obtain ⟨t', ht', heq⟩ := hd
    cases heq
    exact ht'

theorem checkRest_under {mode : ReadMode} {members : List (Quotation × Draft)} {x : Unit}
    (h : checkRest mode members = .ok x) :
    under "type" members = [] ∧ under "value" members = [] := by
  induction members with
  | nil => exact ⟨rfl, rfl⟩
  | cons m members ih =>
    obtain ⟨key, d⟩ := m
    rw [checkRest] at h
    obtain ⟨other, hkey, h⟩ := ok_of_bind h
    split at h
    · cases h
    · next hne =>
      obtain ⟨_, -, h⟩ := ok_of_bind h
      simp only [Bool.or_eq_true, decide_eq_true_eq, not_or] at hne
      exact ⟨(under_cons_ne hkey hne.1).trans (ih h).1, (under_cons_ne hkey hne.2).trans (ih h).2⟩

theorem seekTag_once {mode : ReadMode} {ending : ObjectEnd}
    {read : ValueTag → Decoded PropertyValue} {members : List (Quotation × Draft)}
    {v : PropertyValue} (h : seekTag mode ending read members = .ok v) :
    under "value" members = [] ∧
      ∃ t, Once "type" members (fun d => decodeName ValueTag.all ValueTag.tag mode d = .ok t) ∧
        read t = .ok v := by
  induction members with
  | nil =>
    rw [seekTag] at h
    obtain ⟨_, -, h⟩ := ok_of_bind h
    cases h
  | cons m members ih =>
    obtain ⟨key, d⟩ := m
    rw [seekTag] at h
    obtain ⟨other, hkey, h⟩ := ok_of_bind h
    split at h
    · next htype =>
      subst htype
      obtain ⟨t, ht, h⟩ := ok_of_bind h
      obtain ⟨v', hv, h⟩ := ok_of_bind h
      obtain ⟨_, hrest, h⟩ := ok_of_bind h
      obtain ⟨_, -, h⟩ := ok_of_bind h
      cases h
      obtain ⟨htype, hvalue⟩ := checkRest_under hrest
      exact ⟨(under_cons_ne hkey (by decide)).trans hvalue, t, .first hkey ht htype, hv⟩
    · next htype =>
      split at h
      · cases h
      · next hvalue =>
        obtain ⟨_, -, h⟩ := ok_of_bind h
        obtain ⟨hnone, t, honce, hread⟩ := ih h
        exact ⟨(under_cons_ne hkey hvalue).trans hnone, t, .skip hkey htype honce, hread⟩

theorem ValueTag.field_name (t : ValueTag) : t.field.name = "value" := by
  cases t <;> rfl

theorem decodeTagged_once {mode : ReadMode} {ending : ObjectEnd} {tag : Option ValueTag}
    {members : List (Quotation × Draft)} {v : PropertyValue}
    (h : decodeTagged mode ending tag members = .ok v) :
    ∃ t, (∀ t', tag = some t' → t' = t ∧ under "type" members = []) ∧
      Once "type" members (fun d => decodeName ValueTag.all ValueTag.tag mode d = .ok t) ∧
      Once "value" members (Accepted t.field.shape) := by
  induction members generalizing tag with
  | nil =>
    cases tag with
    | none =>
      rw [decodeTagged] at h
      obtain ⟨_, -, h⟩ := ok_of_bind h
      cases h
    | some t => exact ⟨t, fun t' ht' => ⟨(Option.some.inj ht').symm, rfl⟩, .of_nil rfl, .of_nil rfl⟩
  | cons m members ih =>
    obtain ⟨key, d⟩ := m
    unfold decodeTagged at h
    obtain ⟨other, hkey, h⟩ := ok_of_bind h
    split at h
    · next htype =>
      subst htype
      cases tag with
      | some t => cases h
      | none =>
        obtain ⟨t', ht', h⟩ := ok_of_bind h
        obtain ⟨t, htag, -, hvalue⟩ := ih h
        obtain ⟨rfl, hnone⟩ := htag t' rfl
        exact ⟨t', fun _ h => (by cases h), .first hkey ht' hnone, .skip hkey (by decide) hvalue⟩
    · next htype =>
      split at h
      · next hvalue =>
        subst hvalue
        cases tag with
        | some t =>
          obtain ⟨a, hread, h⟩ := ok_of_bind h
          obtain ⟨_, hrest, -⟩ := ok_of_bind h
          obtain ⟨hnone, hlast⟩ := checkRest_under hrest
          have hunder : under "type" ((key, d) :: members) = [] :=
            (under_cons_ne hkey htype).trans hnone
          exact ⟨t, fun t' ht' => ⟨(Option.some.inj ht').symm, hunder⟩, .of_nil hunder,
            .first hkey (accepted_field hread) hlast⟩
        | none =>
          obtain ⟨_, -, h⟩ := ok_of_bind h
          obtain ⟨hlast, t, honce, hread⟩ := seekTag_once h
          obtain ⟨a, hread, -⟩ := ok_of_bind hread
          exact ⟨t, fun _ h => (by cases h), .skip hkey htype honce,
            .first hkey (accepted_field hread) hlast⟩
      · next hvalue =>
        obtain ⟨_, -, h⟩ := ok_of_bind h
        obtain ⟨t, htag, honce, hlast⟩ := ih h
        exact ⟨t, fun t' ht' => ⟨(htag t' ht').1, (under_cons_ne hkey htype).trans (htag t' ht').2⟩,
          .skip hkey htype honce, .skip hkey hvalue hlast⟩

theorem decodeItems_accepted {s : Shape} {mode : ReadMode} {items : List Draft}
    {ys : List s.Carrier} (h : decodeItems s mode items = .ok ys) : ∀ d ∈ items, Accepted s d := by
  induction items generalizing ys with
  | nil => simp
  | cons d items ih =>
    rw [decodeItems] at h
    obtain ⟨y, hy, h⟩ := ok_of_bind h
    obtain ⟨ys', hys, -⟩ := ok_of_bind h
    exact List.forall_mem_cons.mpr ⟨.inr ⟨mode, y, hy⟩, ih hys⟩

theorem decodeElements_accepted {expected : String} {mode : ReadMode} {ending : ListEnd}
    {index : Nat} {fs : List Field} {items : List Draft} {args : Args fs}
    (h : decodeElements expected mode ending index fs items = .ok args) :
    ∀ p ∈ fs.zip items, Accepted p.1.shape p.2 := by
  induction fs generalizing index items with
  | nil => simp
  | cons f fs ih =>
    cases items with
    | nil => simp
    | cons d items =>
      rw [decodeElements] at h
      obtain ⟨a, hread, h⟩ := ok_of_bind h
      obtain ⟨args', hargs, -⟩ := ok_of_bind h
      exact List.forall_mem_cons.mpr ⟨accepted_field hread, ih hargs⟩

end Pseudocode
