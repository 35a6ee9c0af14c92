import Pseudocode.Proofs.CutLeaves

/-! Texts that break off inside a value. Of the draft of the value that much is
left as stands in front of the break: everything is read as if the text went on,
and then it ends. -/

namespace Pseudocode

namespace Json

/-- What is claimed of every value whose text breaks off, when there is room for
its lists and objects. Three steps for each character are enough. -/
def IsReadCut (v : Json) : Prop :=
  ∀ fuel depth cut, IsCut cut v.chars → 3 * cut.length < fuel → v.depth ≤ depthLimit - depth →
    ∃ d, v.Cut d ∧ (readValue fuel depth cut = (d, none) ∨ readValue fuel depth cut = (d, some []))

theorem isReadCut_leaf {v : Json} (hleaf : v.isLeaf = true) (h : v.Moderate) : v.IsReadCut := by
  intro fuel depth cut hcut hfuel _
  obtain ⟨fuel, rfl⟩ : ∃ n, fuel = n + 1 := ⟨fuel - 1, by omega⟩
  have hword (hv : ∀ s, v ≠ .string s)
      (htext : v.chars ∈ [['n', 'u', 'l', 'l'], ['t', 'r', 'u', 'e'], ['f', 'a', 'l', 's', 'e']]) :
      ∃ d, v.Cut d ∧ (readValue (fuel + 1) depth cut = (d, none) ∨ readValue (fuel + 1) depth cut =
        (d, some [])) := by
    obtain ⟨d, hd, hread⟩ := readValue_word_cut hleaf hv htext hcut fuel depth
    exact ⟨d, hd, .inl hread⟩
  cases v with
  | list items => cases hleaf
  | object members => cases hleaf
  | null => exact hword (by simp) (by decide)
  | bool value =>
    refine hword (by simp) ?_
    cases value <;> decide
  | int value => exact (writtenNumber_int h).readValue_cut rfl (by simp) hcut fuel depth
  | narrow value =>
    rcases writtenNumber_narrow h with ⟨n, hn⟩ | hnull
    · exact hn.readValue_cut rfl (by simp) hcut fuel depth
    · exact hword (by simp) (by rw [hnull]; decide)
  | wide value =>
    rcases writtenNumber_wide value with ⟨n, hn⟩ | hnull
    · exact hn.readValue_cut rfl (by simp) hcut fuel depth
    · exact hword (by simp) (by rw [hnull]; decide)
  | string value =>
    rw [chars, stringChars, List.cons_append] at hcut
    rcases hcut.cons with rfl | ⟨cut, rfl, hcontent⟩
    · exact ⟨_, .nothing, .inl (readValue_nil fuel depth)⟩
    · refine ⟨_, .string (q := ⟨.error .endInString, .error .endInString⟩) rfl, .inl ?_⟩
      rw [readValue_scalar (by decide) (by decide) (by decide), readScalar, readString_cut hcontent]

def IsReadInside (depth : Nat) (v : Json) : Prop := v.IsReadCut ∧ v.depth ≤ depthLimit - depth

theorem IsReadInside.readValue_whole {v : Json} {depth : Nat} (h : v.IsReadInside depth)
    (fuel : Nat) {rest : List Char} (hfuel : 3 * (v.chars ++ rest).length ≤ fuel)
    (hrest : endsNumber rest) :
    readValue fuel depth (v.chars ++ rest) = (v.draft none, some rest) := by
  rw [List.length_append] at hfuel
  rw [v.readValue_chars fuel depth rest (by omega) hrest, draft_room h.2]

theorem readItems_nil (fuel depth : Nat) (first : Bool) :
    readItems (fuel + 1) depth first [] = (([], .atEnd), none) := by
  simp [readItems, skipBlanks]

theorem readMembers_nil (fuel depth : Nat) (first : Bool) :
    readMembers (fuel + 1) depth first [] = (([], .atEnd), none) := by
  simp [readMembers, skipBlanks]

theorem IsReadInside.readItem_inside {v : Json} {depth : Nat} (h : v.IsReadInside depth)
    {cut : List Char} (hcut : IsCut cut v.chars) (fuel : Nat) (hfuel : 3 * cut.length < fuel + 1) :
    ∃ d, v.Cut d ∧ readItem (fuel + 2) depth cut = (([d], .atEnd), none) := by
  obtain ⟨d, hd, hread⟩ := h.1 (fuel + 1) depth cut hcut hfuel h.2
  refine ⟨d, hd, ?_⟩
  rcases hread with hread | hread
  · rw [readItem, hread]
  · rw [readItem, hread]
    simp only [readItems_nil]

theorem IsReadInside.readItem_behind {v : Json} {depth : Nat} (h : v.IsReadInside depth)
    (fuel : Nat) (hfuel : 3 * v.chars.length ≤ fuel + 1) :
    readItem (fuel + 2) depth v.chars = (([v.draft none], .atEnd), none) := by
  have hnumber : endsNumber [] := by simp [endsNumber]
  have hread := h.readValue_whole (fuel + 1) (by simpa using hfuel) hnumber
  rw [List.append_nil] at hread
  rw [readItem, hread]
  simp only [readItems_nil]

theorem IsReadInside.readItem_front {v : Json} {depth : Nat} (h : v.IsReadInside depth) {c : Char}
    {tail cut : List Char} (hcut : IsCut cut (v.chars ++ c :: tail)) (fuel : Nat)
    (hfuel : 3 * cut.length < fuel + 1) :
    (∃ ds, (∀ items, ItemsCut Cut (v :: items) ds) ∧ readItem (fuel + 2) depth cut =
      ((ds, .atEnd), none)) ∨
      ∃ rest, cut = v.chars ++ c :: rest ∧ IsCut rest tail := by
  rcases hcut.append with hinside | ⟨cut, rfl, hbehind⟩
  · obtain ⟨d, hd, hread⟩ := h.readItem_inside hinside fuel hfuel
    exact .inl ⟨[d], fun _ => .inside hd, hread⟩
  rcases hbehind.cons with rfl | ⟨rest, rfl, hrest⟩
  · rw [List.append_nil] at hfuel ⊢
    exact .inl ⟨_, fun items => .behind (.before items), h.readItem_behind fuel (by omega)⟩
  · exact .inr ⟨rest, rfl, hrest⟩

theorem readItem_cut {v : Json} {items : List Json} {depth : Nat}
    (h : ∀ w ∈ v :: items, w.IsReadInside depth) {cut : List Char}
    (hcut : IsCut cut (itemsChars (v :: items) ++ [']'])) (fuel : Nat)
    (hfuel : 3 * cut.length + 1 < fuel) :
    ∃ ds, ItemsCut Cut (v :: items) ds ∧ readItem fuel depth cut = ((ds, .atEnd), none) := by
  induction items generalizing v cut fuel with
  | nil =>
    obtain ⟨fuel, rfl⟩ : ∃ n, fuel = n + 2 := ⟨fuel - 2, by omega⟩
    have hv := h v List.mem_cons_self
    rw [itemsChars] at hcut
    rcases hv.readItem_front hcut fuel (by omega) with ⟨ds, hds, hread⟩ | ⟨rest, -, hrest⟩
    · exact ⟨ds, hds [], hread⟩
    · exact absurd hrest IsCut.not_nil
  | cons w items ih =>
    obtain ⟨fuel, rfl⟩ : ∃ n, fuel = n + 2 := ⟨fuel - 2, by omega⟩
    have hv := h v List.mem_cons_self
    rw [itemsChars_cons_cons, List.append_assoc, List.cons_append] at hcut
    rcases hv.readItem_front hcut fuel (by omega) with ⟨ds, hds, hread⟩ | ⟨rest, rfl, hrest⟩
    · exact ⟨ds, hds _, hread⟩
    have hnumber : endsNumber (',' :: rest) := by simp [endsNumber]
    have hread := hv.readValue_whole (fuel + 1) (by omega) hnumber
    simp only [List.length_append, List.length_cons] at hfuel
    obtain ⟨ds, hds, hitem⟩ :=
      ih (fun u hu => h u (List.mem_cons_of_mem v hu)) hrest fuel (by omega)
    refine ⟨v.draft none :: ds, .behind hds, ?_⟩
    have hcomma : readItems (fuel + 1) depth false (',' :: rest) = readItem fuel depth rest := by
      rw [readItems, skipBlanks_of_head _ (by decide)]
      obtain ⟨c, cs, hstart, hblank, hclose⟩ := startsValue_itemsChars w items [']']
      rw [hstart] at hrest
      rcases hrest.cons with rfl | ⟨rest, rfl, -⟩
      · simp [skipBlanks]
      · simp [skipBlanks_of_head _ hblank, hclose]
    rw [readItem, hread]
    simp only [hcomma, hitem]

theorem readItems_cut {items : List Json} {depth : Nat} (h : ∀ w ∈ items, w.IsReadInside depth)
    {cut : List Char} (hcut : IsCut cut (itemsChars items ++ [']'])) (fuel : Nat)
    (hfuel : 3 * cut.length + 2 < fuel) :
    ∃ ds, ItemsCut Cut items ds ∧ readItems fuel depth true cut = ((ds, .atEnd), none) := by
  obtain ⟨fuel, rfl⟩ : ∃ n, fuel = n + 1 := ⟨fuel - 1, by omega⟩
  cases items with
  | nil =>
    obtain rfl : cut = [] := hcut.eq_nil
    exact ⟨[], .before [], readItems_nil fuel depth true⟩
  | cons v items =>
    obtain ⟨ds, hds, hitem⟩ := readItem_cut h hcut fuel (by omega)
    obtain ⟨c, cs, hstart, hblank, hclose⟩ := startsValue_itemsChars v items [']']
    rw [hstart] at hcut
    rcases hcut.cons with rfl | ⟨cut, rfl, -⟩
    · exact ⟨[], .before _, readItems_nil fuel depth true⟩
    · refine ⟨ds, hds, ?_⟩
      rw [← hitem, readItems]
      simp [skipBlanks_of_head _ hblank]

abbrev memberChars (key : String) (behind : List Char) : List Char :=
  (key.toList.flatMap escapeChar ++ ['"']) ++ ':' :: behind

theorem readMember_key {key : String} {cut : List Char}
    (h : IsCut cut (key.toList.flatMap escapeChar ++ ['"'])) (fuel depth : Nat) :
    readMember (fuel + 1) depth cut =
      (([(⟨.error .endInString, .error .endInString⟩, .gap .nothing)], .atEnd), none) := by
  rw [readMember, readString_cut h]

theorem readMember_behind (key : String) (cut : List Char) (fuel depth : Nat) :
    readMember (fuel + 1) depth (memberChars key cut) =
      match readValue fuel depth cut with
      | (d, none) => (([(.closed key, d)], .atEnd), none)
      | (d, some cs) =>
        (((.closed key, d) :: (readMembers fuel depth false cs).1.1,
            (readMembers fuel depth false cs).1.2), (readMembers fuel depth false cs).2) := by
  have hkey := readString_chars key (':' :: cut)
  have hcolon : skipBlanks (':' :: cut) = ':' :: cut := skipBlanks_of_head _ (by decide)
  rw [memberChars, List.append_assoc, List.singleton_append, readMember, hkey]
  cases hread : readValue fuel depth cut with
  | mk d rest => cases rest <;> simp [hcolon, hread]

theorem membersChars_cons (key : String) (v : Json) (members : List (String × Json)) :
    membersChars ((key, v) :: members) ++ ['\x7d'] = '"' :: memberChars key (v.chars ++
      match members with
      | [] => ['\x7d']
      | m :: rest => ',' :: (membersChars (m :: rest) ++ ['\x7d'])) := by
  cases members with
  | nil => simp [membersChars, stringChars]
  | cons m members =>
    rw [membersChars_cons_cons]
    simp [stringChars]

theorem IsReadInside.readMember_inside {v : Json} {depth : Nat} (h : v.IsReadInside depth)
    (key : String) {cut : List Char} (hcut : IsCut cut v.chars) (fuel : Nat)
    (hfuel : 3 * cut.length < fuel + 1) :
    ∃ d, v.Cut d ∧ readMember (fuel + 2) depth (memberChars key cut) =
      (([(.closed key, d)], .atEnd), none) := by
  obtain ⟨d, hd, hread⟩ := h.1 (fuel + 1) depth cut hcut hfuel h.2
  refine ⟨d, hd, ?_⟩
  rcases hread with hread | hread
  · rw [readMember_behind, hread]
  · rw [readMember_behind, hread]
    simp only [readMembers_nil]

theorem IsReadInside.readMember_whole {v : Json} {depth : Nat} (h : v.IsReadInside depth)
    (key : String) (fuel : Nat) {rest : List Char} (hfuel : 3 * (v.chars ++ rest).length ≤ fuel)
    (hrest : endsNumber rest) :
    readMember (fuel + 1) depth (memberChars key (v.chars ++ rest)) =
      (((.closed key, v.draft none) :: (readMembers fuel depth false rest).1.1,
        (readMembers fuel depth false rest).1.2), (readMembers fuel depth false rest).2) := by
  rw [readMember_behind, h.readValue_whole fuel hfuel hrest]

theorem IsReadInside.readMember_front {v : Json} {depth : Nat} (h : v.IsReadInside depth)
    (key : String) {c : Char} {tail : List Char} {cut : List Char}
    (hcut : IsCut cut (memberChars key (v.chars ++ c :: tail))) (fuel : Nat)
    (hfuel : 3 * cut.length < fuel + 1) :
    (∃ ds, (∀ members, MembersCut Cut ((key, v) :: members) ds .atEnd) ∧
      readMember (fuel + 2) depth cut = ((ds, .atEnd), none)) ∨
    ∃ rest, cut = memberChars key (v.chars ++ c :: rest) ∧ IsCut rest tail := by
  rcases hcut.append with hkey | ⟨cut, rfl, hcolon⟩
  · exact .inl ⟨_, fun _ => .key rfl, readMember_key hkey (fuel + 1) depth⟩
  rcases hcolon.cons with rfl | ⟨cut, rfl, hvalue⟩
  · refine .inl ⟨_, fun _ => .colon, ?_⟩
    rw [List.append_nil, readMember, readString_chars key []]
    rfl
  simp only [List.length_append, List.length_cons] at hfuel
  rcases hvalue.append with hinside | ⟨cut, rfl, hbehind⟩
  · obtain ⟨d, hd, hread⟩ := h.readMember_inside key hinside fuel (by omega)
    exact .inl ⟨_, fun _ => .inside hd, hread⟩
  rcases hbehind.cons with rfl | ⟨rest, rfl, hrest⟩
  · refine .inl ⟨_, fun members => .behind (.before members), ?_⟩
    rw [← memberChars, h.readMember_whole key (fuel + 1) (by simp at hfuel ⊢; omega)
      (by simp [endsNumber]), readMembers_nil]
  · exact .inr ⟨rest, rfl, hrest⟩

theorem readMember_cut {key : String} {v : Json} {members : List (String × Json)} {depth : Nat}
    (h : ∀ m ∈ (key, v) :: members, m.2.IsReadInside depth) {cut : List Char}
    (hcut : IsCut ('"' :: cut) (membersChars ((key, v) :: members) ++ ['\x7d'])) (fuel : Nat)
    (hfuel : 3 * cut.length + 1 < fuel) :
    ∃ ds ending, MembersCut Cut ((key, v) :: members) ds ending ∧ readMember fuel depth cut =
      ((ds, ending), none) := by
  induction members generalizing key v cut fuel with
  | nil =>
    obtain ⟨fuel, rfl⟩ : ∃ n, fuel = n + 2 := ⟨fuel - 2, by omega⟩
    have hv : v.IsReadInside depth := h (key, v) List.mem_cons_self
    rw [membersChars_cons] at hcut
    rcases hv.readMember_front key hcut.cons_cons.2 fuel (by omega) with
      ⟨ds, hds, hread⟩ | ⟨rest, -, hrest⟩
    · exact ⟨ds, _, hds [], hread⟩
    · exact absurd hrest IsCut.not_nil
  | cons m members ih =>
    obtain ⟨key', w⟩ := m
    obtain ⟨fuel, rfl⟩ : ∃ n, fuel = n + 2 := ⟨fuel - 2, by omega⟩
    have hv : v.IsReadInside depth := h (key, v) List.mem_cons_self
    rw [membersChars_cons] at hcut
    rcases hv.readMember_front key hcut.cons_cons.2 fuel (by omega) with
      ⟨ds, hds, hread⟩ | ⟨rest, rfl, hrest⟩
    · exact ⟨ds, _, hds _, hread⟩
    have hnumber : endsNumber (',' :: rest) := by simp [endsNumber]
    simp only [List.length_append, List.length_cons] at hfuel
    have hread := hv.readMember_whole key (fuel + 1)
      (by simp only [List.length_append, List.length_cons]; omega) hnumber
    rw [membersChars_cons] at hrest
    rcases hrest.cons with rfl | ⟨rest, rfl, hmember⟩
    · refine ⟨_, _, .comma, ?_⟩
      rw [hread]
      simp [readMembers, skipBlanks, isJsonBlank]
    · have hmembers : IsCut ('"' :: rest) (membersChars ((key', w) :: members) ++ ['\x7d']) := by
        rw [membersChars_cons]
        exact hrest
      rw [List.length_cons] at hfuel
      obtain ⟨ds, ending, hds, hmember⟩ :=
        ih (fun u hu => h u (List.mem_cons_of_mem _ hu)) hmembers fuel (by omega)
      refine ⟨_, _, .behind hds, ?_⟩
      have hcomma :
          readMembers (fuel + 1) depth false (',' :: '"' :: rest) = readMember fuel depth rest := by
        rw [readMembers]
        simp [skipBlanks_of_head, isJsonBlank]
      rw [hread, hcomma, hmember]

theorem readMembers_cut {members : List (String × Json)} {depth : Nat}
    (h : ∀ m ∈ members, m.2.IsReadInside depth) {cut : List Char}
    (hcut : IsCut cut (membersChars members ++ ['\x7d'])) (fuel : Nat)
    (hfuel : 3 * cut.length + 2 < fuel) :
    ∃ ds ending, MembersCut Cut members ds ending ∧ readMembers fuel depth true cut =
      ((ds, ending), none) := by
  obtain ⟨fuel, rfl⟩ : ∃ n, fuel = n + 1 := ⟨fuel - 1, by omega⟩
  cases members with
  | nil =>
    obtain rfl : cut = [] := hcut.eq_nil
    exact ⟨[], _, .before [], readMembers_nil fuel depth true⟩
  | cons m members =>
    obtain ⟨key, v⟩ := m
    have hquote := hcut
    rw [membersChars_cons] at hquote
    rcases hquote.cons with rfl | ⟨cut, rfl, -⟩
    · exact ⟨[], _, .before _, readMembers_nil fuel depth true⟩
    · rw [List.length_cons] at hfuel
      obtain ⟨ds, ending, hds, hmember⟩ := readMember_cut h hcut fuel (by omega)
      refine ⟨ds, ending, hds, ?_⟩
      rw [← hmember, readMembers]
      simp [skipBlanks_of_head, isJsonBlank]

theorem isReadCut {v : Json} (h : v.everyLeaf Moderate) : v.IsReadCut := by
  induction v using Json.induction with
  | leaf v hleaf => exact isReadCut_leaf hleaf ((everyLeaf_leaf hleaf).mp h)
  | list items ih =>
    intro fuel depth cut hcut hfuel hdepth
    obtain ⟨fuel, rfl⟩ : ∃ n, fuel = n + 1 := ⟨fuel - 1, by omega⟩
    rw [chars, List.cons_append] at hcut
    rcases hcut.cons with rfl | ⟨cut, rfl, hitems⟩
    · exact ⟨_, .nothing, .inl (readValue_nil fuel depth)⟩
    rw [Json.depth] at hdepth
    rw [List.length_cons] at hfuel
    have hinside : ∀ w ∈ items, w.IsReadInside (depth + 1) := fun w hw =>
      ⟨ih w hw (everyLeaf_list.mp h w hw), itemsDepth_le.mp (by omega) w hw⟩
    obtain ⟨ds, hds, hread⟩ := readItems_cut hinside hitems fuel (by omega)
    refine ⟨_, .list hds, .inl ?_⟩
    have hroom : ¬ depthLimit ≤ depth := by omega
    simp [readValue, skipBlanks_of_head, isJsonBlank, hread, hroom]
  | object members ih =>
    intro fuel depth cut hcut hfuel hdepth
    obtain ⟨fuel, rfl⟩ : ∃ n, fuel = n + 1 := ⟨fuel - 1, by omega⟩
    rw [chars, List.cons_append] at hcut
    rcases hcut.cons with rfl | ⟨cut, rfl, hmembers⟩
    · exact ⟨_, .nothing, .inl (readValue_nil fuel depth)⟩
    rw [Json.depth] at hdepth
    rw [List.length_cons] at hfuel
    have hinside : ∀ m ∈ members, m.2.IsReadInside (depth + 1) := fun m hm =>
      ⟨ih m hm (everyLeaf_object.mp h m hm), membersDepth_le.mp (by omega) m hm⟩
    obtain ⟨ds, ending, hds, hread⟩ := readMembers_cut hinside hmembers fuel (by omega)
    refine ⟨_, .object hds, .inl ?_⟩
    have hroom : ¬ depthLimit ≤ depth := by omega
    simp [readValue, skipBlanks_of_head, isJsonBlank, hread, hroom]

/-- A text that breaks off is read as what is left of its value, and nothing trails it. -/
theorem document_cut {v : Json} (h : v.everyLeaf Moderate) (hdepth : v.depth ≤ depthLimit)
    {cut : List Char} (hcut : IsCut cut v.chars) :
    ∃ d, v.Cut d ∧ Document.ofText (String.ofList cut) = ⟨d, false⟩ := by
  obtain ⟨d, hd, hread⟩ := isReadCut h (3 * cut.length + 3) 0 cut hcut (by omega) (by omega)
  refine ⟨d, hd, ?_⟩
  rcases hread with hread | hread
  · simp [Document.ofText, hread]
  · simp [Document.ofText, hread, skipBlanks]

end Json

end Pseudocode
