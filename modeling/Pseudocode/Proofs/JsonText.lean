import Pseudocode.Proofs.JsonLeaves

/-! The text of a value is read as that value, however its numbers and strings are
spelled, and what follows it in a text is left alone. -/

namespace Pseudocode

namespace Json

def isReal : Json → Bool
  | narrow _ | wide _ => true
  | _ => false

/-- The text of a real is read as a number or, where it has no spelling, as null. -/
theorem draft_real {v : Json} (h : v.isReal = true) (room : Option Nat) :
    (∃ n, v.draft room = .number n) ∨ v.draft room = .null := by
  cases v with
  | narrow x =>
    cases ht : x.storedText with
    | none => exact .inr (by rw [draft, ht]; rfl)
    | some t =>
      obtain ⟨p, hread⟩ := x.reads_storedText ht
      exact .inl ⟨p.number, by rw [draft, ht, Option.map_some, hread.numeralDraft]; rfl⟩
  | wide x =>
    cases ht : x.storedText with
    | none => exact .inr (by rw [draft, ht]; rfl)
    | some t =>
      obtain ⟨p, hread⟩ := x.reads_storedText ht
      exact .inl ⟨p.number, by rw [draft, ht, Option.map_some, hread.numeralDraft]; rfl⟩
  | _ => cases h

theorem fault?_real {v : Json} (h : v.isReal = true) {room : Option Nat}
    (hrange : v.draft room ≠ .number .outOfRange) : (v.draft room).fault? = none := by
  rcases draft_real h room with ⟨n, hn⟩ | hnull
  · rw [hn] at hrange ⊢
    cases n with
    | outOfRange => exact absurd rfl hrange
    | _ => rfl
  · rw [hnull]
    rfl

/-- What is claimed of every value: its text is read, and what follows is left.
Three steps for each character are enough. -/
def isRead (v : Json) : Prop :=
  ∀ fuel depth rest, 3 * v.chars.length ≤ fuel → endsNumber rest →
    readValue fuel depth (v.chars ++ rest) = (v.draft (some (depthLimit - depth)), some rest)

theorem length_chars_pos (v : Json) : 0 < v.chars.length := by
  obtain ⟨c, cs, h, -⟩ := v.startsValue_chars
  rw [h]
  exact Nat.succ_pos _

theorem itemsChars_cons_cons (v w : Json) (items : List Json) :
    itemsChars (v :: w :: items) = v.chars ++ ',' :: itemsChars (w :: items) := by
  rw [itemsChars]
  simp

theorem membersChars_cons_cons (key : String) (v : Json) (m : String × Json)
    (members : List (String × Json)) :
    membersChars ((key, v) :: m :: members) = stringChars key ++ ':' :: v.chars ++ ',' ::
      membersChars (m :: members) := by
  rw [membersChars]
  simp

theorem startsValue_itemsChars (v : Json) (items : List Json) (rest : List Char) :
    startsValue (itemsChars (v :: items) ++ rest) := by
  obtain ⟨c, cs, h, hblank, hclose⟩ := v.startsValue_chars
  cases items with
  | nil => exact ⟨c, cs ++ rest, by rw [itemsChars, h]; rfl, hblank, hclose⟩
  | cons w items => exact ⟨c, _, by rw [itemsChars_cons_cons, h]; rfl, hblank, hclose⟩

theorem readItem_chars (v : Json) (items : List Json) (h : ∀ w ∈ v :: items, w.isRead)
    (fuel depth : Nat) (rest : List Char) (hfuel : 3 * (itemsChars (v :: items)).length < fuel) :
    readItem fuel depth (itemsChars (v :: items) ++ ']' :: rest) =
      ((itemsDraft (some (depthLimit - depth)) (v :: items), .closed), some rest) := by
  induction items generalizing v fuel with
  | nil =>
    rw [itemsChars] at hfuel ⊢
    obtain ⟨fuel, rfl⟩ : ∃ n, fuel = n + 2 := ⟨fuel - 2, by have hpos := v.length_chars_pos; omega⟩
    have hv :=
      h v List.mem_cons_self (fuel + 1) depth (']' :: rest) (by omega) (by simp [endsNumber])
    rw [readItem, hv]
    simp [readItems, skipBlanks, isJsonBlank, itemsDraft]
  | cons w items ih =>
    rw [itemsChars_cons_cons] at hfuel ⊢
    rw [List.length_append, List.length_cons] at hfuel
    obtain ⟨fuel, rfl⟩ : ∃ n, fuel = n + 2 := ⟨fuel - 2, by omega⟩
    have hv := h v List.mem_cons_self (fuel + 1) depth
      (',' :: itemsChars (w :: items) ++ ']' :: rest) (by omega) (by simp [endsNumber])
    have hrest := ih w (fun u hu => h u (List.mem_cons_of_mem v hu)) fuel (by omega)
    obtain ⟨c, cs, hstart, hblank, hclose⟩ := startsValue_itemsChars w items (']' :: rest)
    have hcomma : readItems (fuel + 1) depth false (',' :: itemsChars (w :: items) ++ ']' :: rest) =
        ((itemsDraft (some (depthLimit - depth)) (w :: items), .closed), some rest) := by
      rw [← hrest, List.cons_append, readItems, skipBlanks_of_head _ (by decide), hstart]
      simp [skipBlanks_of_head cs hblank, hclose]
    rw [List.append_assoc, readItem, hv, itemsDraft]
    simp only [hcomma]

theorem readItems_chars (items : List Json) (h : ∀ w ∈ items, w.isRead) (fuel depth : Nat)
    (rest : List Char) (hfuel : 3 * (itemsChars items).length + 1 < fuel) :
    readItems fuel depth true (itemsChars items ++ ']' :: rest) =
      ((itemsDraft (some (depthLimit - depth)) items, .closed), some rest) := by
  obtain ⟨fuel, rfl⟩ : ∃ n, fuel = n + 1 := ⟨fuel - 1, by omega⟩
  cases items with
  | nil => simp [readItems, itemsChars, skipBlanks, isJsonBlank, itemsDraft]
  | cons v items =>
    obtain ⟨c, cs, hstart, hblank, hclose⟩ := startsValue_itemsChars v items (']' :: rest)
    rw [← readItem_chars v items h fuel depth rest (by omega), hstart, readItems]
    simp [skipBlanks_of_head cs hblank]

theorem readMember_chars (key : String) (v : Json) (members : List (String × Json))
    (h : ∀ m ∈ (key, v) :: members, m.2.isRead) (fuel depth : Nat) (rest : List Char)
    (hfuel : 3 * (membersChars ((key, v) :: members)).length < fuel) :
    ∃ cs, membersChars ((key, v) :: members) ++ '\x7d' :: rest = '"' :: cs ∧
      readMember fuel depth cs =
        ((membersDraft (some (depthLimit - depth)) ((key, v) :: members), .closed), some rest) := by
  induction members generalizing key v fuel with
  | nil =>
    rw [membersChars] at hfuel ⊢
    rw [List.length_append, List.length_cons] at hfuel
    obtain ⟨fuel, rfl⟩ : ∃ n, fuel = n + 2 := ⟨fuel - 2, by omega⟩
    have hread : v.isRead := h (key, v) List.mem_cons_self
    have hv := hread (fuel + 1) depth ('\x7d' :: rest) (by omega) (by simp [endsNumber])
    have hkey := readString_chars key (':' :: (v.chars ++ '\x7d' :: rest))
    refine ⟨key.toList.flatMap escapeChar ++ '"' :: ':' ::
      (v.chars ++ '\x7d' :: rest), by simp [stringChars], ?_⟩
    rw [readMember, hkey]
    simp [skipBlanks_of_head, isJsonBlank, hv, readMembers, membersDraft]
  | cons m members ih =>
    obtain ⟨key', w⟩ := m
    rw [membersChars_cons_cons] at hfuel ⊢
    simp only [List.length_append, List.length_cons] at hfuel
    obtain ⟨fuel, rfl⟩ : ∃ n, fuel = n + 2 := ⟨fuel - 2, by omega⟩
    obtain ⟨cs, hcs, hrest⟩ :=
      ih key' w (fun u hu => h u (List.mem_cons_of_mem _ hu)) fuel (by omega)
    have hread : v.isRead := h (key, v) List.mem_cons_self
    have hv := hread (fuel + 1) depth (',' :: '"' :: cs) (by omega) (by simp [endsNumber])
    have hkey := readString_chars key (':' :: (v.chars ++ ',' :: '"' :: cs))
    refine ⟨key.toList.flatMap escapeChar ++ '"' :: ':' :: (v.chars ++ ',' :: '"' :: cs), ?_, ?_⟩
    · rw [List.append_assoc, List.cons_append, hcs]
      simp [stringChars]
    rw [readMember, hkey]
    simp [skipBlanks_of_head, isJsonBlank, hv, readMembers, hrest, membersDraft]

theorem readMembers_chars (members : List (String × Json)) (h : ∀ m ∈ members, m.2.isRead)
    (fuel depth : Nat) (rest : List Char) (hfuel : 3 * (membersChars members).length + 1 < fuel) :
    readMembers fuel depth true (membersChars members ++ '\x7d' :: rest) =
      ((membersDraft (some (depthLimit - depth)) members, .closed), some rest) := by
  obtain ⟨fuel, rfl⟩ : ∃ n, fuel = n + 1 := ⟨fuel - 1, by omega⟩
  cases members with
  | nil => simp [readMembers, membersChars, skipBlanks, isJsonBlank, membersDraft]
  | cons m members =>
    obtain ⟨key, v⟩ := m
    obtain ⟨cs, hcs, hread⟩ := readMember_chars key v members h fuel depth rest (by omega)
    rw [hcs, ← hread, readMembers]
    simp [skipBlanks_of_head, isJsonBlank]

theorem readValue_chars (v : Json) : v.isRead := by
  induction v using Json.induction with
  | leaf v hleaf =>
    intro fuel depth rest hfuel hrest
    obtain ⟨fuel, rfl⟩ : ∃ n, fuel = n + 1 := ⟨fuel - 1, by have hpos := v.length_chars_pos; omega⟩
    exact readValue_leaf hleaf _ fuel depth hrest
  | list items ih =>
    intro fuel depth rest hfuel hrest
    simp only [chars, List.length_append, List.length_cons] at hfuel
    obtain ⟨fuel, rfl⟩ : ∃ n, fuel = n + 1 := ⟨fuel - 1, by omega⟩
    have hitems := readItems_chars items ih fuel (depth + 1) rest (by simp at hfuel; omega)
    simp [chars, draft, readValue, skipBlanks_of_head, isJsonBlank, hitems, Nat.sub_sub,
      Nat.sub_eq_zero_iff_le]
  | object members ih =>
    intro fuel depth rest hfuel hrest
    simp only [chars, List.length_append, List.length_cons] at hfuel
    obtain ⟨fuel, rfl⟩ : ∃ n, fuel = n + 1 := ⟨fuel - 1, by omega⟩
    have hmembers := readMembers_chars members ih fuel (depth + 1) rest (by simp at hfuel; omega)
    simp [chars, draft, readValue, skipBlanks_of_head, isJsonBlank, hmembers, Nat.sub_sub,
      Nat.sub_eq_zero_iff_le]

/-- The text of a value is read as the draft of the value, and nothing trails it. -/
theorem document_text (v : Json) : Document.ofText v.text = ⟨v.draft (some depthLimit), false⟩ := by
  have hread := v.readValue_chars (3 * v.chars.length + 3) 0 [] (by omega) (by simp [endsNumber])
  rw [List.append_nil, Nat.sub_zero] at hread
  simp [Document.ofText, text, hread, skipBlanks]

end Json

end Pseudocode
