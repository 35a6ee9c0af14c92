import Pseudocode.Proofs.BalancedValues
import Pseudocode.Proofs.Spelling

/-! Literals that are told apart. A number does not say where it ends, so two
literals are compared with whatever may stand behind them, as long as no number
could go on with it. -/

namespace Pseudocode

/-- Whether two values are told apart by their texts: texts that are the same,
each with something behind it, are of the same value and have the same behind
them. -/
def Told {α : Type} (text : α → List Char) (a b : α) : Prop :=
  ∀ rest rest' : List Char, endsNumber rest → endsNumber rest' → text a ++ rest = text b ++ rest' →
    a = b ∧ rest = rest'

theorem Told.of_int (i j : Int) : Told (fun k : Int => (toString k).toList) i j := by
  intro rest rest' hr hr' heq
  have hread := (readsAs_int i).2 rest hr
  have hparts := (readsAs_int j).2 rest' hr'
  simp only at heq
  rw [heq, hparts, Except.ok.injEq, Prod.mk.injEq, NumberParts.mk.injEq] at hread
  obtain ⟨⟨hsign, hdigits, -⟩, rfl⟩ := hread
  have habs : j.natAbs = i.natAbs := by
    rw [← digitsValue_toDigits j.natAbs, hdigits, digitsValue_toDigits]
  have hnegative : j < 0 ↔ i < 0 := by simpa using hsign
  exact ⟨by omega, rfl⟩

theorem append_cons_inj_of_not_mem {c : Char} {cs ds rest rest' : List Char} (hc : c ∉ cs)
    (hd : c ∉ ds) (h : cs ++ c :: rest = ds ++ c :: rest') : cs = ds ∧ rest = rest' := by
  rcases List.append_eq_append_iff.mp h with ⟨between, rfl, hbetween⟩ | ⟨between, rfl, hbetween⟩
  · cases between with
    | nil => simpa using hbetween
    | cons d between =>
      obtain ⟨rfl, -⟩ := List.cons.inj hbetween
      simp at hd
  · cases between with
    | nil => simpa [eq_comm] using hbetween
    | cons d between =>
      obtain ⟨rfl, -⟩ := List.cons.inj hbetween
      simp at hc

theorem inQuotes_append_inj {s t : String} (hs : '"' ∉ s.toList) (ht : '"' ∉ t.toList)
    {rest rest' : List Char} (h : (inQuotes s).toList ++ rest = (inQuotes t).toList ++ rest') :
    s = t ∧ rest = rest' := by
  have hquoted : s.toList ++ '"' :: rest = t.toList ++ '"' :: rest' := by
    simpa [inQuotes] using h
  obtain ⟨htext, hrest⟩ := append_cons_inj_of_not_mem hs ht hquoted
  exact ⟨String.toList_inj.mp htext, hrest⟩

section Lists

variable {α : Type} {text : α → List Char} {a b : α} {as bs : List α} {rest rest' : List Char}

def laterItems (text : α → List Char) (rest : List Char) (as : List α) : List Char :=
  (as.flatMap fun a => ", ".toList ++ text a) ++ (" \x7d".toList ++ rest)

theorem endsNumber_laterItems (text : α → List Char) (rest : List Char) (as : List α) :
    endsNumber (laterItems text rest as) := by
  cases as <;> simp [endsNumber, laterItems]

theorem Told.later (h : Told text a b)
    (heq : text a ++ laterItems text rest as = text b ++ laterItems text rest' bs) :
    a = b ∧ laterItems text rest as = laterItems text rest' bs :=
  h _ _ (endsNumber_laterItems text rest as) (endsNumber_laterItems text rest' bs) heq

theorem laterItems_inj (h : ∀ a ∈ as, ∀ b ∈ bs, Told text a b)
    (heq : laterItems text rest as = laterItems text rest' bs) : as = bs ∧ rest = rest' := by
  induction as generalizing bs with
  | nil =>
    cases bs with
    | nil => simpa [laterItems] using heq
    | cons b bs => simp [laterItems] at heq
  | cons a as ih =>
    cases bs with
    | nil => simp [laterItems] at heq
    | cons b bs =>
      have hitems : text a ++ laterItems text rest as = text b ++ laterItems text rest' bs := by
        simpa [laterItems, List.append_assoc] using heq
      obtain ⟨rfl, hlater⟩ := (h a List.mem_cons_self b List.mem_cons_self).later hitems
      obtain ⟨rfl, hrest⟩ :=
        ih (fun c hc d hd => h c (List.mem_cons_of_mem _ hc) d (List.mem_cons_of_mem _ hd)) hlater
      exact ⟨rfl, hrest⟩

def listedItems (text : α → List Char) (rest : List Char) : List α → List Char
  | [] => " \x7d".toList ++ rest
  | a :: as => text a ++ laterItems text rest as

theorem intercalate_cons_toList (write : α → String) (a : α) (as : List α) :
    (", ".intercalate ((a :: as).map write)).toList =
      (write a).toList ++ as.flatMap fun a => ", ".toList ++ (write a).toList := by
  induction as generalizing a with
  | nil => simp
  | cons b as ih =>
    have htail := ih b
    simp only [List.map_cons, String.intercalate_cons_cons, String.toList_append] at htail ⊢
    rw [htail]
    simp

theorem intercalate_listedItems (write : α → String) (as : List α) (rest : List Char) :
    (", ".intercalate (as.map write)).toList ++ (" \x7d".toList ++ rest) =
      listedItems (fun a => (write a).toList) rest as := by
  cases as with
  | nil => simp [listedItems]
  | cons a as => simp only [intercalate_cons_toList, listedItems, laterItems, List.append_assoc]

/-- A list ends where a blank stands in place of an item. -/
theorem listedItems_inj (hblank : ∀ a ∈ as ++ bs, ∀ rest, (text a ++ rest).head? ≠ some ' ')
    (h : ∀ a ∈ as, ∀ b ∈ bs, Told text a b)
    (heq : listedItems text rest as = listedItems text rest' bs) : as = bs ∧ rest = rest' := by
  cases as with
  | nil =>
    cases bs with
    | nil => simpa [listedItems] using heq
    | cons b bs => exact absurd (congrArg List.head? heq.symm) (hblank b (by simp) _)
  | cons a as =>
    cases bs with
    | nil => exact absurd (congrArg List.head? heq) (hblank a (by simp) _)
    | cons b bs =>
      obtain ⟨rfl, hlater⟩ := (h a List.mem_cons_self b List.mem_cons_self).later heq
      obtain ⟨rfl, hrest⟩ :=
        laterItems_inj (fun c hc d hd =>
          h c (List.mem_cons_of_mem _ hc) d (List.mem_cons_of_mem _ hd)) hlater
      exact ⟨rfl, hrest⟩

end Lists

/-- What the first two characters of a literal tell about it. -/
inductive LiteralSort where
  | truth | integer | quoted | object | absent | list | map
  deriving DecidableEq, Repr

def LiteralSort.ofChars : List Char → Option LiteralSort
  | 't' :: _ => some .truth
  | 'f' :: _ => some .truth
  | '"' :: _ => some .quoted
  | 'F' :: _ => some .object
  | 'n' :: _ => some .absent
  | 'T' :: 'A' :: _ => some .list
  | 'T' :: 'M' :: _ => some .map
  | c :: _ => if c = '-' ∨ c.isDigit = true then some .integer else none
  | [] => none

theorem LiteralSort.ofChars_int (i : Int) (rest : List Char) :
    ofChars ((toString i).toList ++ rest) = some .integer := by
  obtain ⟨c, cs, htext, hfirst⟩ := (readsAs_int i).1
  rw [htext, List.cons_append]
  have hother : c ≠ 't' ∧ c ≠ 'f' ∧ c ≠ '"' ∧ c ≠ 'F' ∧ c ≠ 'n' ∧ c ≠ 'T' := by
    refine ⟨?_, ?_, ?_, ?_, ?_, ?_⟩ <;> (rintro rfl; exact absurd hfirst (by decide))
  simp [ofChars, hother, hfirst]

namespace PropertyValue

/-- Whether a value is built of truth values, signed integers, strings and objects
by lists and maps, and no string in it has a double quote. -/
inductive IsPlain : PropertyValue → Prop
  | bool (value : Bool) : IsPlain (.bool value)
  | int (value : Int64) : IsPlain (.int value)
  | str {value : String} (h : '"' ∉ value.toList) : IsPlain (.text .str value)
  | object {path : String} (h : '"' ∉ path.toList) : IsPlain (.object (some path))
  | absent : IsPlain (.object none)
  | array {items : List PropertyValue} (h : ∀ v ∈ items, IsPlain v) : IsPlain (.array items)
  | map {entries : List (PropertyValue × PropertyValue)} (hkeys : ∀ e ∈ entries, IsPlain e.1)
    (hvalues : ∀ e ∈ entries, IsPlain e.2) : IsPlain (.map entries)

def literalSort : PropertyValue → Option LiteralSort
  | bool _ => some .truth
  | int _ => some .integer
  | text .str _ => some .quoted
  | object (some _) => some .object
  | object none => some .absent
  | array _ => some .list
  | map _ => some .map
  | _ => none

def literalChars (v : PropertyValue) : List Char := v.literal.toList

def entryChars (e : PropertyValue × PropertyValue) : List Char :=
  e.1.literalChars ++ ": ".toList ++ e.2.literalChars

theorem literalChars_array (items : List PropertyValue) (rest : List Char) :
    (array items).literalChars ++ rest =
      "TArray \x7b ".toList ++ listedItems literalChars rest items := by
  have hitems := intercalate_listedItems literal items rest
  cases items with
  | nil => rfl
  | cons v items =>
    rw [literalChars, literal, literalItems_eq, String.toList_append, String.toList_append,
      List.append_assoc, List.append_assoc, hitems]
    rfl

theorem literalChars_map (entries : List (PropertyValue × PropertyValue)) (rest : List Char) :
    (map entries).literalChars ++ rest =
      "TMap \x7b ".toList ++ listedItems entryChars rest entries := by
  have hentries :=
    intercalate_listedItems (fun e => e.1.literal ++ ": " ++ e.2.literal) entries rest
  simp only [String.toList_append] at hentries
  cases entries with
  | nil => rfl
  | cons e entries =>
    rw [literalChars, literal, literalEntries_eq, String.toList_append, String.toList_append,
      List.append_assoc, List.append_assoc, hentries]
    rfl

theorem IsPlain.ofChars_literalChars {v : PropertyValue} (h : v.IsPlain) (rest : List Char) :
    LiteralSort.ofChars (v.literalChars ++ rest) = v.literalSort := by
  cases h with
  | bool value => cases value <;> rfl
  | int value => exact LiteralSort.ofChars_int value.toInt rest
  | str => simp [literalChars, literal, inQuotes, LiteralSort.ofChars, literalSort]
  | object => simp [literalChars, literal, constructorText, LiteralSort.ofChars, literalSort]
  | absent => simp [literalChars, literal, LiteralSort.ofChars, literalSort]
  | array => simp [literalChars_array, LiteralSort.ofChars, literalSort]
  | map => simp [literalChars_map, LiteralSort.ofChars, literalSort]

theorem IsPlain.literalChars_head {v : PropertyValue} (h : v.IsPlain) (rest : List Char) :
    (v.literalChars ++ rest).head? ≠ some ' ' := by
  intro hblank
  obtain ⟨cs, hcs⟩ := List.head?_eq_some_iff.mp hblank
  have hnone : v.literalSort = none := by rw [← h.ofChars_literalChars rest, hcs]; rfl
  cases h <;> cases hnone

theorem told_bool (a b : Bool) : Told literalChars (bool a) (bool b) := by
  intro rest rest' _ _ heq
  cases a <;> cases b <;> simp_all [literalChars, literal, displayText]

theorem told_int (a b : Int64) : Told literalChars (int a) (int b) := by
  intro rest rest' hr hr' heq
  obtain ⟨hvalue, hrest⟩ := Told.of_int a.toInt b.toInt rest rest' hr hr' heq
  exact ⟨congrArg int (Int64.toInt_inj.mp hvalue), hrest⟩

theorem told_str {s t : String} (hs : '"' ∉ s.toList) (ht : '"' ∉ t.toList) :
    Told literalChars (text .str s) (text .str t) := by
  intro rest rest' _ _ heq
  obtain ⟨rfl, hrest⟩ := inQuotes_append_inj hs ht heq
  exact ⟨rfl, hrest⟩

theorem told_object {s t : String} (hs : '"' ∉ s.toList) (ht : '"' ∉ t.toList) :
    Told literalChars (object (some s)) (object (some t)) := by
  intro rest rest' _ _ heq
  have hquoted : (inQuotes s).toList ++ ')' :: rest = (inQuotes t).toList ++ ')' :: rest' := by
    simpa [literalChars, literal, constructorText] using heq
  obtain ⟨rfl, hrest⟩ := inQuotes_append_inj hs ht hquoted
  exact ⟨rfl, (List.cons.inj hrest).2⟩

theorem told_entry {e f : PropertyValue × PropertyValue} (hkey : Told literalChars e.1 f.1)
    (hvalue : Told literalChars e.2 f.2) : Told entryChars e f := by
  intro rest rest' hr hr' heq
  have hcolon (cs : List Char) : endsNumber (": ".toList ++ cs) := by simp [endsNumber]
  simp only [entryChars, List.append_assoc] at heq
  obtain ⟨hkeys, hbehind⟩ := hkey _ _ (hcolon _) (hcolon _) heq
  obtain ⟨hvalues, hrest⟩ := hvalue _ _ hr hr' (List.append_cancel_left hbehind)
  exact ⟨Prod.ext hkeys hvalues, hrest⟩

theorem IsPlain.told_of_sort {v w : PropertyValue} (hv : v.IsPlain) (hw : w.IsPlain)
    (h : v.literalSort = w.literalSort → Told literalChars v w) : Told literalChars v w := by
  intro rest rest' hr hr' heq
  have hsort : v.literalSort = w.literalSort := by
    rw [← hv.ofChars_literalChars rest, ← hw.ofChars_literalChars rest', heq]
  exact h hsort rest rest' hr hr' heq

theorem told_array {vs ws : List PropertyValue} (hvs : ∀ v ∈ vs, v.IsPlain)
    (hws : ∀ w ∈ ws, w.IsPlain) (h : ∀ v ∈ vs, ∀ w ∈ ws, Told literalChars v w) :
    Told literalChars (array vs) (array ws) := by
  intro rest rest' _ _ heq
  rw [literalChars_array, literalChars_array] at heq
  have hblank : ∀ v ∈ vs ++ ws, ∀ rest, (v.literalChars ++ rest).head? ≠ some ' ' := fun v hv =>
    (List.forall_mem_append.mpr ⟨hvs, hws⟩ v hv).literalChars_head
  obtain ⟨rfl, hrest⟩ := listedItems_inj hblank h (List.append_cancel_left heq)
  exact ⟨rfl, hrest⟩

theorem told_map {es fs : List (PropertyValue × PropertyValue)} (hes : ∀ e ∈ es, e.1.IsPlain)
    (hfs : ∀ f ∈ fs, f.1.IsPlain) (h : ∀ e ∈ es, ∀ f ∈ fs, Told entryChars e f) :
    Told literalChars (map es) (map fs) := by
  intro rest rest' _ _ heq
  rw [literalChars_map, literalChars_map] at heq
  have hblank : ∀ e ∈ es ++ fs, ∀ rest, (entryChars e ++ rest).head? ≠ some ' ' := by
    intro e he rest
    have hkey := (List.forall_mem_append.mpr ⟨hes, hfs⟩ e he).literalChars_head
    simpa [entryChars, List.append_assoc] using hkey (": ".toList ++ e.2.literalChars ++ rest)
  obtain ⟨rfl, hrest⟩ := listedItems_inj hblank h (List.append_cancel_left heq)
  exact ⟨rfl, hrest⟩

theorem IsPlain.told {v w : PropertyValue} (hv : v.IsPlain) (hw : w.IsPlain) :
    Told literalChars v w := by
  refine hv.told_of_sort hw fun hsort => ?_
  induction hv generalizing w with
  | bool a =>
    cases hw with
    | bool b => exact told_bool a b
    | _ => cases hsort
  | int a =>
    cases hw with
    | int b => exact told_int a b
    | _ => cases hsort
  | str hs =>
    cases hw with
    | str ht => exact told_str hs ht
    | _ => cases hsort
  | object hs =>
    cases hw with
    | object ht => exact told_object hs ht
    | _ => cases hsort
  | absent =>
    cases hw with
    | absent => exact fun _ _ _ _ heq => ⟨rfl, List.append_cancel_left heq⟩
    | _ => cases hsort
  | array h ih =>
    cases hw with
    | array h' =>
      exact told_array h h' fun v hv w hw => (h v hv).told_of_sort (h' w hw) (ih v hv (h' w hw))
    | _ => cases hsort
  | map hkeys hvalues ihkeys ihvalues =>
    cases hw with
    | map hkeys' hvalues' =>
      refine told_map hkeys hkeys' fun e he f hf => told_entry ?_ ?_
      · exact (hkeys e he).told_of_sort (hkeys' f hf) (ihkeys e he (hkeys' f hf))
      · exact (hvalues e he).told_of_sort (hvalues' f hf) (ihvalues e he (hvalues' f hf))
    | _ => cases hsort

/-- Different values have different literals. -/
theorem literal_inj {v w : PropertyValue} (hv : v.IsPlain) (hw : w.IsPlain) :
    v.literal = w.literal ↔ v = w := by
  refine ⟨fun heq => ?_, congrArg literal⟩
  have hchars : v.literalChars ++ [] = w.literalChars ++ [] := by
    rw [literalChars, literalChars, heq]
  exact (hv.told hw [] [] (by simp [endsNumber]) (by simp [endsNumber]) hchars).1

theorem literal_inj_separators :
    let key (s : String) := text .str s
    let one := map [(key "a: 1, b", array [int 2, int 34])]
    let two := map [(key "a", int 1), (key "b", array [int 23, int 4])]
    one.literal = "TMap \x7b \"a: 1, b\": TArray \x7b 2, 34 \x7d \x7d" ∧
      two.literal = "TMap \x7b \"a\": 1, \"b\": TArray \x7b 23, 4 \x7d \x7d" ∧
        one.literal ≠ two.literal := by
  intro key one two
  have hkey {s : String} (h : '"' ∉ s.toList) : (key s).IsPlain := .str h
  have hpair (i j : Int64) : (array [int i, int j]).IsPlain := .array (by simp [IsPlain.int])
  have hone : one.IsPlain := .map (by simpa using hkey (by decide)) (by simpa using hpair 2 34)
  have htwo : two.IsPlain :=
    .map (by simpa using ⟨hkey (by decide), hkey (by decide)⟩) (by simpa using ⟨.int 1, hpair 23 4⟩)
  exact ⟨by decide, by decide, (literal_inj hone htwo).not.mpr (by simp [one, two])⟩

end PropertyValue

end Pseudocode
