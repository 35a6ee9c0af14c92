import Pseudocode.Proofs.JsonDraft
import Pseudocode.Proofs.NumberRange

/-! Strings, words and numbers are read from their texts, and what follows them
in a text is left alone. -/

namespace Pseudocode

/-- A character of a string is read back from its spelling, whatever follows it. -/
theorem readUnits_escapeChar (c : Char) :
    ∃ unit,
      (∀ ending units, joinUnits ending (unit :: units) = (joinUnits ending units).map (c :: ·)) ∧
      ∀ cs, readUnits (Json.escapeChar c ++ cs) = (unit :: (readUnits cs).1, (readUnits cs).2) := by
  unfold Json.escapeChar
  split
  iterate 7 exact ⟨.escaped _, fun _ _ => rfl, fun cs => rfl⟩
  next hquote hbackslash _ _ _ _ _ =>
    by_cases hcontrol : c.toNat < 0x20
    · refine ⟨.code c.toNat, fun ending units => ?_, fun cs => ?_⟩
      · have hlow : isLowSurrogate c.toNat = false := by simp [isLowSurrogate]; omega
        have hhigh : isHighSurrogate c.toNat = false := by simp [isHighSurrogate]; omega
        rw [joinUnits.eq_def]
        simp only [hlow, hhigh, Bool.false_eq_true, if_false, Char.ofNat_toNat]
      · have hdigits : ∀ n < 32, hexDigits 'a' (n % 16) = [(hexDigits 'a' (n % 16)).headD '0'] ∧
            hexCode? '0' '0' (if n < 16 then '0' else '1') ((hexDigits 'a' (n % 16)).headD '0') =
            some n := by
          decide
        obtain ⟨hdigit, hcode⟩ := hdigits c.toNat hcontrol
        rw [if_pos hcontrol, hdigit]
        simp only [List.cons_append, List.nil_append]
        rw [readUnits, hcode]
    · refine ⟨.plain c, fun _ _ => rfl, fun cs => ?_⟩
      simp only [hcontrol, if_false, List.cons_append, List.nil_append]
      rw [readUnits.eq_def]
      split <;> simp_all

theorem readUnits_chars (cs rest : List Char) :
    (readUnits (cs.flatMap Json.escapeChar ++ '"' :: rest)).2 = (⟨none, .unpairedSurrogate⟩, rest) ∧
      joinUnits ⟨none, .unpairedSurrogate⟩
        (readUnits (cs.flatMap Json.escapeChar ++ '"' :: rest)).1 = .ok cs := by
  induction cs with
  | nil => exact ⟨rfl, rfl⟩
  | cons c cs ih =>
    obtain ⟨unit, hjoin, hread⟩ := readUnits_escapeChar c
    rw [List.flatMap_cons, List.append_assoc, hread]
    exact ⟨ih.1, by rw [hjoin, ih.2]; rfl⟩

theorem readString_chars (s : String) (rest : List Char) :
    readString (s.toList.flatMap Json.escapeChar ++ '"' :: rest) = (.closed s, some rest) := by
  obtain ⟨hend, hjoin⟩ := readUnits_chars s.toList rest
  obtain ⟨units, hunits⟩ : ∃ units, readUnits (s.toList.flatMap Json.escapeChar ++ '"' :: rest) =
      (units, ⟨none, .unpairedSurrogate⟩, rest) := ⟨_, Prod.ext rfl hend⟩
  rw [hunits] at hjoin
  simp only [readString, hunits, hjoin]
  simp [Except.map]

def startsValue (cs : List Char) : Prop := ∃ c ds, cs = c :: ds ∧ isJsonBlank c = false ∧ c ≠ ']'

theorem skipBlanks_of_head {c : Char} (cs : List Char) (h : isJsonBlank c = false) :
    skipBlanks (c :: cs) = c :: cs := by
  rw [skipBlanks, List.dropWhile_cons, h]
  rfl

theorem readsAs.startsValue {cs : List Char} {p : NumberParts} (h : readsAs cs p) :
    startsValue cs := by
  obtain ⟨⟨c, ds, rfl, hc⟩, -⟩ := h
  refine ⟨c, ds, rfl, ?_⟩
  rcases hc with rfl | hdigit
  · decide
  · have hne : ∀ d : Char, d.isDigit = false → c ≠ d := by
      rintro d hd rfl
      rw [hdigit] at hd
      cases hd
    simp [isJsonBlank, hne ' ' rfl, hne '\t' rfl, hne '\n' rfl, hne '\r' rfl, hne ']' rfl]

theorem readValue_scalar {c : Char} (hblank : isJsonBlank c = false) (hlist : c ≠ '[')
    (hobject : c ≠ '\x7b') (fuel depth : Nat) (cs : List Char) :
    readValue (fuel + 1) depth (c :: cs) = readScalar (c :: cs) := by
  rw [readValue, skipBlanks_of_head _ hblank]
  split
  · exact absurd (List.cons.inj ‹_›).1 hlist
  · exact absurd (List.cons.inj ‹_›).1 hobject
  · rfl

theorem readsAs.numeralDraft {cs : List Char} {p : NumberParts} (h : readsAs cs p) :
    numeralDraft cs = .number p.number := by
  have hread := h.2 [] (by simp [endsNumber])
  rw [List.append_nil] at hread
  simp only [Pseudocode.numeralDraft, hread]

theorem numeralDraft_int {i : Int} (h : isWord i) :
    numeralDraft (toString i).toList = .number (.int i) := by
  rw [(readsAs_int i).numeralDraft, number_int h]

theorem readValue_number {c : Char} (hc : c = '-' ∨ c.isDigit = true) (fuel depth : Nat)
    (cs : List Char) :
    readValue (fuel + 1) depth (c :: cs) =
      match readNumber (c :: cs) with
      | .ok (p, rest) => (.number p.number, some rest)
      | .error atEnd => (.gap (.numeral atEnd), none) := by
  have hother : ∀ d : Char, d ≠ '-' → d.isDigit = false → c ≠ d := by
    rintro d hminus hdigit rfl
    rcases hc with h | h
    · exact hminus h
    · rw [hdigit] at h
      cases h
  have hblank : isJsonBlank c = false := by
    simp [isJsonBlank, hother ' ' (by decide) (by decide), hother '\t' (by decide) (by decide),
      hother '\n' (by decide) (by decide), hother '\r' (by decide) (by decide)]
  rw [readValue_scalar hblank (hother '[' (by decide) (by decide))
    (hother '\x7b' (by decide) (by decide))]
  have hnumber : (c = '-' || c.isDigit) = true := by simpa using hc
  have hquote := hother '"' (by decide) (by decide)
  have hn := hother 'n' (by decide) (by decide)
  have ht := hother 't' (by decide) (by decide)
  have hf := hother 'f' (by decide) (by decide)
  rw [readScalar.eq_def]
  cases hread : readNumber (c :: cs) with
  | ok r => simp_all only [Bool.or_eq_true, decide_eq_true_eq, if_true, ne_eq]
  | error atEnd => simp_all only [Bool.or_eq_true, decide_eq_true_eq, if_true, ne_eq]

theorem readValue_numeral {cs : List Char} {p : NumberParts} (h : readsAs cs p) (fuel depth : Nat)
    {rest : List Char} (hrest : endsNumber rest) :
    readValue (fuel + 1) depth (cs ++ rest) = (numeralDraft cs, some rest) := by
  have hself := h.numeralDraft
  obtain ⟨⟨c, ds, rfl, hc⟩, hread⟩ := h
  have hread := hread rest hrest
  rw [List.cons_append] at hread ⊢
  rw [readValue_number hc, hread, hself]

theorem readValue_word (fuel depth : Nat) (rest : List Char) :
    readValue (fuel + 1) depth ("null".toList ++ rest) = (.null, some rest) ∧
      readValue (fuel + 1) depth ("true".toList ++ rest) = (.bool true, some rest) ∧
      readValue (fuel + 1) depth ("false".toList ++ rest) = (.bool false, some rest) := by
  refine ⟨?_, ?_, ?_⟩
  iterate 3 simp [readValue, skipBlanks, isJsonBlank, readScalar, readScalar.word, readWord]

namespace Json

theorem startsValue_chars (v : Json) : startsValue v.chars := by
  cases v with
  | int value => exact (readsAs_int value).startsValue
  | narrow value =>
    cases ht : value.storedText with
    | none => exact ⟨'n', _, by rw [chars, ht]; rfl, by decide⟩
    | some t =>
      obtain ⟨p, hp⟩ := Binary32.reads_storedText ht
      simpa [chars, ht] using hp.startsValue
  | wide value =>
    cases ht : value.storedText with
    | none => exact ⟨'n', _, by rw [chars, ht]; rfl, by decide⟩
    | some t =>
      obtain ⟨p, hp⟩ := Binary64.reads_storedText ht
      simpa [chars, ht] using hp.startsValue
  | null => exact ⟨'n', _, rfl, by decide⟩
  | bool value =>
    cases value with
    | true => exact ⟨'t', _, rfl, by decide⟩
    | false => exact ⟨'f', _, rfl, by decide⟩
  | string value => exact ⟨'"', _, rfl, by decide⟩
  | list items => exact ⟨'[', _, rfl, by decide⟩
  | object members => exact ⟨'\x7b', _, rfl, by decide⟩

theorem readValue_leaf {v : Json} (h : v.isLeaf = true) (room : Option Nat) (fuel depth : Nat)
    {rest : List Char} (hrest : endsNumber rest) :
    readValue (fuel + 1) depth (v.chars ++ rest) = (v.draft room, some rest) := by
  obtain ⟨hnull, htrue, hfalse⟩ := readValue_word fuel depth rest
  cases v with
  | null => exact hnull
  | bool value =>
    cases value with
    | true => exact htrue
    | false => exact hfalse
  | int value => exact readValue_numeral (readsAs_int value) fuel depth hrest
  | narrow value =>
    cases ht : value.storedText with
    | none => simpa only [chars, draft, ht, Option.getD_none, Option.map_none] using hnull
    | some t =>
      obtain ⟨p, hp⟩ := Binary32.reads_storedText ht
      simpa [chars, draft, ht] using readValue_numeral hp fuel depth hrest
  | wide value =>
    cases ht : value.storedText with
    | none => simpa only [chars, draft, ht, Option.getD_none, Option.map_none] using hnull
    | some t =>
      obtain ⟨p, hp⟩ := Binary64.reads_storedText ht
      simpa [chars, draft, ht] using readValue_numeral hp fuel depth hrest
  | string value =>
    have hread := readString_chars value rest
    simp [chars, stringChars, draft, readValue, skipBlanks, isJsonBlank, readScalar, hread]
  | list items => cases h
  | object members => cases h

end Json

end Pseudocode
