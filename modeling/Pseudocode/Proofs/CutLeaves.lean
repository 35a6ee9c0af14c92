import Pseudocode.Proofs.CutNumbers
import Pseudocode.Proofs.JsonText

/-! Strings, words and numbers whose text breaks off, and what may be left of a
value of which they are part. -/

namespace Pseudocode

/-- What is left of the items of a list, given what may be left of one. -/
inductive ItemsCut (part : Json → Draft → Prop) : List Json → List Draft → Prop
  | before (items : List Json) : ItemsCut part items []
  | inside {v : Json} {items : List Json} {d : Draft} (h : part v d) :
      ItemsCut part (v :: items) [d]
  | behind {v : Json} {items : List Json} {ds : List Draft} (h : ItemsCut part items ds) :
      ItemsCut part (v :: items) (v.draft none :: ds)

/-- What is left of the members of an object, and how it ends. -/
inductive MembersCut (part : Json → Draft → Prop) :
    List (String × Json) → List (Quotation × Draft) → ObjectEnd → Prop
  | before (ms : List (String × Json)) : MembersCut part ms [] .atEnd
  | key {key : String} {v : Json} {ms : List (String × Json)} {q : Quotation} (h : q.content =
      .error .endInString) : MembersCut part ((key, v) :: ms) [(q, .gap .nothing)] .atEnd
  | colon {key : String} {v : Json} {ms : List (String × Json)} :
      MembersCut part ((key, v) :: ms) [(.closed key, .gap (.colon true))] .atEnd
  | inside {key : String} {v : Json} {ms : List (String × Json)} {d : Draft} (h : part v d) :
      MembersCut part ((key, v) :: ms) [(.closed key, d)] .atEnd
  | comma {key : String} {v : Json} {m : String × Json} {ms : List (String × Json)} :
      MembersCut part ((key, v) :: m :: ms) [(.closed key, v.draft none)] .commaAtEnd
  | behind {key : String} {v : Json} {ms : List (String × Json)}
      {ds : List (Quotation × Draft)} {ending : ObjectEnd} (h : MembersCut part ms ds ending) :
      MembersCut part ((key, v) :: ms) ((.closed key, v.draft none) :: ds) ending

namespace Json

/-- What is left of a value when its text breaks off. -/
inductive Cut : Json → Draft → Prop
  | nothing {v : Json} : Cut v (.gap .nothing)
  | unfinished {v : Json} {g : Gap} (hleaf : v.isLeaf = true) (hv : ∀ s, v ≠ .string s)
      (hg : g = .word true ∨ g = .numeral true) : Cut v (.gap g)
  | number {v : Json} {whole part : Number} (hv : v.draft none = .number whole)
      (h : whole.Cut part) : Cut v (.number part)
  | string {s : String} {q : Quotation} (h : q.content = .error .endInString) :
      Cut (.string s) (.string q)
  | list {items : List Json} {ds : List Draft} (h : ItemsCut Cut items ds) :
      Cut (.list items) (.list false ds .atEnd)
  | object {ms : List (String × Json)} {ds : List (Quotation × Draft)} {ending : ObjectEnd}
      (h : MembersCut Cut ms ds ending) : Cut (.object ms) (.object false ds ending)

end Json

theorem readUnits_escapeChar_cut {c : Char} {cut : List Char} (h : IsCut cut (Json.escapeChar c)) :
    readUnits cut = ([], ⟨some .endInString, .endInString⟩, []) := by
  obtain ⟨n, hn, rfl⟩ := h.eq_take
  unfold Json.escapeChar at hn ⊢
  split at hn
  iterate 7
    obtain rfl | rfl : n = 0 ∨ n = 1 := by simp at hn; omega
    · rfl
    · rfl
  split at hn
  · have hdigit : ∀ n < 32, hexDigits 'a' (n % 16) = [(hexDigits 'a' (n % 16)).headD '0'] := by
      decide
    have hcode := hdigit c.toNat ‹_›
    generalize (hexDigits 'a' (c.toNat % 16)).headD '0' = d at hcode
    rw [hcode] at hn
    simp only [‹c.toNat < 32›, if_true, hcode]
    obtain rfl | rfl | rfl | rfl | rfl | rfl : n = 0 ∨ n = 1 ∨ n = 2 ∨ n = 3 ∨ n = 4 ∨ n = 5 := by
      simp at hn; omega
    iterate 5 rfl
    split <;> rfl
  · obtain rfl : n = 0 := by simpa using hn
    rfl

theorem readUnits_cut {cs cut : List Char} (h : IsCut cut (cs.flatMap Json.escapeChar ++ ['"'])) :
    (readUnits cut).2 = (⟨some .endInString, .endInString⟩, []) ∧
      joinUnits ⟨some .endInString, .endInString⟩ (readUnits cut).1 = .error .endInString := by
  induction cs generalizing cut with
  | nil =>
    rcases h.cons with rfl | ⟨cut', -, hnil⟩
    · exact ⟨rfl, rfl⟩
    · exact absurd hnil IsCut.not_nil
  | cons c cs ih =>
    rw [List.flatMap_cons, List.append_assoc] at h
    rcases h.append with hc | ⟨cut, rfl, hcs⟩
    · rw [readUnits_escapeChar_cut hc]
      exact ⟨rfl, rfl⟩
    · obtain ⟨unit, hjoin, hread⟩ := readUnits_escapeChar c
      obtain ⟨hend, hcontent⟩ := ih hcs
      rw [hread]
      exact ⟨hend, by rw [hjoin, hcontent]; rfl⟩

theorem readString_cut {s : String} {cut : List Char}
    (h : IsCut cut (s.toList.flatMap Json.escapeChar ++ ['"'])) :
    readString cut = (⟨.error .endInString, .error .endInString⟩, none) := by
  obtain ⟨hend, hcontent⟩ := readUnits_cut h
  obtain ⟨units, hunits⟩ :
      ∃ units, readUnits cut = (units, ⟨some .endInString, .endInString⟩, []) :=
    ⟨_, Prod.ext rfl hend⟩
  rw [hunits] at hcontent
  simp only [readString, hunits, hcontent]
  rfl

theorem readWord_cut {word cut : List Char} (h : IsCut cut word) :
    readWord word cut = .error true := by
  induction word generalizing cut with
  | nil => exact absurd h IsCut.not_nil
  | cons w word ih =>
    rcases h.cons with rfl | ⟨cut, rfl, hword⟩
    · rfl
    · rw [readWord, if_pos rfl, ih hword]

theorem readValue_nil (fuel depth : Nat) :
    readValue (fuel + 1) depth [] = (.gap .nothing, none) := by
  simp [readValue, skipBlanks, readScalar]

theorem readValue_word_cut {v : Json} (hleaf : v.isLeaf = true) (hv : ∀ s, v ≠ .string s)
    {word cut : List Char}
    (hword : word ∈ [['n', 'u', 'l', 'l'], ['t', 'r', 'u', 'e'], ['f', 'a', 'l', 's', 'e']])
    (h : IsCut cut word) (fuel depth : Nat) :
    ∃ d, v.Cut d ∧ readValue (fuel + 1) depth cut = (d, none) := by
  have hgap : v.Cut (.gap (.word true)) := .unfinished hleaf hv (.inl rfl)
  simp only [List.mem_cons, List.not_mem_nil, or_false] at hword
  rcases hword with rfl | rfl | rfl
  all_goals
    rcases h.cons with rfl | ⟨cut, rfl, hcut⟩
    · exact ⟨_, .nothing, readValue_nil fuel depth⟩
    · refine ⟨_, hgap, ?_⟩
      rw [readValue_scalar (by decide) (by decide) (by decide), readScalar, readWord_cut hcut]
      rfl

/-- Whether a number stays in range wherever its text breaks off. -/
def Json.Moderate : Json → Prop
  | .int i => isWord i
  | .narrow x => ((Json.narrow x).draft none).fault? = none
  | _ => True

theorem Spelling.isShort_ofInt {i : Int} (h : isWord i) : (Spelling.ofInt i).IsShort := by
  refine ⟨?_, fun hpower => by cases hpower⟩
  have hlt : i.natAbs < 10 ^ 20 := by
    obtain ⟨hlow, hhigh⟩ := h
    omega
  exact (Nat.length_toDigits_le_iff (by decide) (by decide)).mpr hlt

theorem Spelling.draft (n : Spelling) : numeralDraft n.chars = .number n.parts.number :=
  n.readsAs.numeralDraft

structure Json.WrittenNumber (v : Json) (n : Spelling) : Prop where
  text : v.chars = n.chars
  draft : v.draft none = .number n.parts.number
  isShort : n.IsShort
  inRange : n.parts.number ≠ .outOfRange

theorem Json.writtenNumber_int {i : Int} (h : isWord i) :
    (Json.int i).WrittenNumber (.ofInt i) := by
  have hnumber : (Spelling.ofInt i).parts.number = .int i := number_int h
  have htext := Spelling.chars_ofInt i
  refine ⟨htext.symm, ?_, Spelling.isShort_ofInt h, by rw [hnumber]; simp⟩
  rw [Json.draft, ← htext, Spelling.draft]

theorem Json.writtenNumber_wide (x : Binary64) :
    (∃ n, (Json.wide x).WrittenNumber n) ∨ (Json.wide x).chars = ['n', 'u', 'l', 'l'] := by
  cases ht : x.storedText with
  | none => exact .inr (by rw [chars, ht]; rfl)
  | some t =>
    obtain ⟨n, htext, hshort, hrange⟩ := Binary64.inRange_storedText ht
    refine .inl ⟨n, by rw [chars, ht, Option.getD_some, htext], ?_, hshort, hrange⟩
    rw [Json.draft, ht, Option.map_some, htext, Spelling.draft, Option.getD_some]

theorem Json.writtenNumber_narrow {x : Binary32} (h : ((Json.narrow x).draft none).fault? = none) :
    (∃ n, (Json.narrow x).WrittenNumber n) ∨ (Json.narrow x).chars = ['n', 'u', 'l', 'l'] := by
  cases ht : x.storedText with
  | none => exact .inr (by rw [chars, ht]; rfl)
  | some t =>
    obtain ⟨n, htext, hshort⟩ := Binary32.spelled_storedText ht
    have hdraft : (Json.narrow x).draft none = .number n.parts.number := by
      rw [Json.draft, ht, Option.map_some, htext, Spelling.draft, Option.getD_some]
    refine .inl ⟨n, by rw [chars, ht, Option.getD_some, htext], hdraft, hshort, fun hrange => ?_⟩
    rw [hdraft, hrange] at h
    cases h

theorem Json.WrittenNumber.readValue_cut {v : Json} {n : Spelling} (h : v.WrittenNumber n)
    (hleaf : v.isLeaf = true) (hv : ∀ s, v ≠ .string s) {cut : List Char} (hcut : IsCut cut v.chars)
    (fuel depth : Nat) :
    ∃ d, v.Cut d ∧ (readValue (fuel + 1) depth cut = (d, none) ∨ readValue (fuel + 1) depth cut =
      (d, some [])) := by
  rw [h.text] at hcut
  obtain ⟨⟨c, cs, hchars, hc⟩, -⟩ := n.readsAs
  have hfirst : cut = [] ∨ ∃ ds, cut = c :: ds := by
    rcases (hchars ▸ hcut).cons with hnil | ⟨ds, hds, -⟩
    · exact .inl hnil
    · exact .inr ⟨ds, hds⟩
  rcases hfirst with rfl | ⟨ds, rfl⟩
  · exact ⟨_, .nothing, .inl (readValue_nil fuel depth)⟩
  · rw [readValue_number hc]
    rcases Spelling.readNumber_cut h.isShort h.inRange hcut with hbreak | ⟨p, hread, hnumber⟩
    · rw [hbreak]
      exact ⟨_, .unfinished hleaf hv (.inr rfl), .inl rfl⟩
    · rw [hread]
      exact ⟨_, .number h.draft hnumber, .inr rfl⟩

end Pseudocode
