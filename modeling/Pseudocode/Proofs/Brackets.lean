import Pseudocode.Proofs.Payload

/-! Texts whose brackets are properly nested: the grammar of such texts, and a
check that keeps the closing brackets which are still owed. Whether a text is
nested depends on its brackets alone, so whatever is nested itself can be put in
anywhere. -/

namespace Pseudocode

def brackets : List Char := ['(', ')', '[', ']', '\x7b', '\x7d']

def closer? : Char → Option Char
  | '(' => some ')'
  | '[' => some ']'
  | '\x7b' => some '\x7d'
  | _ => none

/-- Texts whose round, square and curly brackets are properly nested. -/
inductive Nested : List Char → Prop
  | nil : Nested []
  | plain {c : Char} {cs : List Char} (h : c ∉ brackets) (rest : Nested cs) : Nested (c :: cs)
  | pair {o c : Char} {inner cs : List Char} (h : closer? o = some c) (body : Nested inner)
      (rest : Nested cs) : Nested (o :: (inner ++ c :: cs))

/-- The closing brackets owed after a character, the innermost first, given those
owed before it; none if the character closes a bracket other than the innermost
open one. -/
def owedAfter (before : List Char) (c : Char) : Option (List Char) :=
  match closer? c with
  | some d => some (d :: before)
  | none =>
    if c ∈ brackets then (if before.head? = some c then some before.tail else none) else some before

def owed (before cs : List Char) : Option (List Char) := cs.foldlM owedAfter before

@[simp] theorem owed_nil (before : List Char) : owed before [] = some before := rfl

theorem owed_cons (before : List Char) (c : Char) (cs : List Char) :
    owed before (c :: cs) = (owedAfter before c).bind (owed · cs) := rfl

theorem owed_append (before s t : List Char) :
    owed before (s ++ t) = (owed before s).bind (owed · t) :=
  List.foldlM_append

theorem owedAfter_plain {c : Char} (h : c ∉ brackets) (before : List Char) :
    owedAfter before c = some before := by
  have hc : closer? c = none := by
    unfold closer?
    split <;> simp_all [brackets]
  simp [owedAfter, hc, h]

theorem owedAfter_open {o c : Char} (h : closer? o = some c) (before : List Char) :
    owedAfter before o = some (c :: before) := by
  simp [owedAfter, h]

theorem owedAfter_close {o c : Char} (h : closer? o = some c) (outer : List Char) :
    owedAfter (c :: outer) c = some outer := by
  have hc : closer? c = none ∧ c ∈ brackets := by
    unfold closer? at h
    split at h <;> simp only [Option.some.injEq, reduceCtorEq] at h <;> subst h <;> decide
  simp [owedAfter, hc]

namespace Nested

theorem owed_eq {cs : List Char} (h : Nested cs) (before : List Char) :
    owed before cs = some before := by
  induction h generalizing before with
  | nil => rfl
  | plain hc rest ih => rw [owed_cons, owedAfter_plain hc, Option.bind_some, ih]
  | pair ho body rest ihb ihr =>
    rw [owed_cons, owedAfter_open ho, Option.bind_some, owed_append, ihb, Option.bind_some,
      owed_cons, owedAfter_close ho, Option.bind_some, ihr]

theorem append {s t : List Char} (hs : Nested s) (ht : Nested t) : Nested (s ++ t) := by
  induction hs with
  | nil => exact ht
  | plain hc rest ih => exact .plain hc ih
  | pair ho body rest _ ih =>
    rw [List.cons_append, List.append_assoc, List.cons_append]
    exact .pair ho body ih

end Nested

/-- Texts that close what is owed, with nested texts between the closing brackets. -/
def Closes : List Char → List Char → Prop
  | [], cs => Nested cs
  | d :: outer, cs => ∃ inner rest, cs = inner ++ d :: rest ∧ Nested inner ∧ Closes outer rest

theorem Closes.prepend {before s t : List Char} (hs : Nested s) (ht : Closes before t) :
    Closes before (s ++ t) := by
  cases before with
  | nil => exact hs.append ht
  | cons d outer =>
    obtain ⟨inner, rest, rfl, hinner, hrest⟩ := ht
    exact ⟨s ++ inner, rest, by simp, hs.append hinner, hrest⟩

theorem closes_of_owed {before cs : List Char} (h : owed before cs = some []) :
    Closes before cs := by
  induction cs generalizing before with
  | nil =>
    obtain rfl : before = [] := by simpa using h
    exact .nil
  | cons c cs ih =>
    obtain ⟨after, hafter, hrest⟩ := Option.bind_eq_some_iff.mp h
    cases hc : closer? c with
    | some d =>
      obtain rfl : d :: before = after := by simpa [owedAfter, hc] using hafter
      obtain ⟨inner, rest, rfl, hinner, houter⟩ := ih hrest
      have hpair : Nested (c :: (inner ++ d :: [])) := .pair hc hinner .nil
      simpa using houter.prepend hpair
    | none =>
      by_cases hmem : c ∈ brackets
      · obtain ⟨hhead, rfl⟩ : before.head? = some c ∧ before.tail = after := by
          simpa [owedAfter, hc, hmem] using hafter
        obtain ⟨outer, rfl⟩ := List.head?_eq_some_iff.mp hhead
        exact ⟨[], cs, rfl, .nil, ih hrest⟩
      · obtain rfl : before = after := by simpa [owedAfter, hc, hmem] using hafter
        exact (ih hrest).prepend (.plain hmem .nil)

theorem nested_iff_owed (cs : List Char) : Nested cs ↔ owed [] cs = some [] :=
  ⟨fun h => h.owed_eq [], closes_of_owed⟩

instance (cs : List Char) : Decidable (Nested cs) := decidable_of_iff _ (nested_iff_owed cs).symm

def bracketsOf (s : String) : List Char := s.toList.filter (· ∈ brackets)

theorem owed_filter (before cs : List Char) :
    owed before (cs.filter (· ∈ brackets)) = owed before cs := by
  induction cs generalizing before with
  | nil => rfl
  | cons c cs ih =>
    by_cases hc : c ∈ brackets
    · rw [List.filter_cons_of_pos (by simpa using hc), owed_cons, owed_cons]
      simp only [ih]
    · rw [List.filter_cons_of_neg (by simpa using hc), owed_cons, owedAfter_plain hc,
        Option.bind_some, ih]

theorem nested_bracketsOf (s : String) : Nested (bracketsOf s) ↔ Nested s.toList := by
  rw [nested_iff_owed, nested_iff_owed, bracketsOf, owed_filter]

@[simp] theorem bracketsOf_empty : bracketsOf "" = [] := rfl

@[simp] theorem bracketsOf_append (s t : String) :
    bracketsOf (s ++ t) = bracketsOf s ++ bracketsOf t := by
  simp [bracketsOf]

def bracketFree (s : String) : Prop := ∀ c ∈ brackets, c ∉ s.toList

instance (s : String) : Decidable (bracketFree s) :=
  List.decidableBAll (fun c : Char => c ∉ s.toList) brackets

theorem bracketFree.brackets_nil {s : String} (h : bracketFree s) : bracketsOf s = [] := by
  rw [bracketsOf, List.filter_eq_nil_iff]
  intro c hc
  simpa using fun hb => h c hb hc

theorem madeOf.bracketFree {ss : List String} {t : String} (h : madeOf ss t)
    (hss : ∀ s ∈ ss, bracketFree s) : bracketFree t := by
  have hmarks : brackets.all (· ∉ nameMarks) = true := by decide
  exact fun c hc => h.not_mem (of_decide_eq_true (List.all_eq_true.mp hmarks c hc)) fun s hs =>
    hss s hs c hc

/-- Names have no brackets but those of the strings they are made of. -/
theorem madeOf.brackets_nil {ss : List String} {t : String} (h : madeOf ss t)
    (hss : ∀ s ∈ ss, Pseudocode.bracketFree s) : bracketsOf t = [] :=
  (h.bracketFree hss).brackets_nil

theorem isNumeralText.brackets_nil {s : String} (h : isNumeralText s) : bracketsOf s = [] := by
  have hmarks : brackets.all (fun c => !c.isDigit && c ∉ numeralMarks) = true := by decide
  refine bracketFree.brackets_nil fun c hc hs => ?_
  have hmark := List.all_eq_true.mp hmarks c hc
  rcases h c hs with hdigit | hnumeral
  · simp [hdigit] at hmark
  · simp [hnumeral] at hmark

theorem bracketsOf_inQuotes (s : String) : bracketsOf (inQuotes s) = bracketsOf s := by
  simp +decide [inQuotes, bracketsOf]

theorem nested_append {s t : String} (hs : Nested (bracketsOf s)) (ht : Nested (bracketsOf t)) :
    Nested (bracketsOf (s ++ t)) := by
  rw [bracketsOf_append]
  exact hs.append ht

theorem nested_join {ts : List String} (h : ∀ t ∈ ts, Nested (bracketsOf t)) :
    Nested (bracketsOf (String.join ts)) :=
  join_of_append (P := fun t => Nested (bracketsOf t)) .nil (fun _ _ => nested_append) h

theorem nested_intercalate {separator : String} (hs : bracketsOf separator = []) {ts : List String}
    (h : ∀ t ∈ ts, Nested (bracketsOf t)) : Nested (bracketsOf (separator.intercalate ts)) :=
  intercalate_of_append (P := fun t => Nested (bracketsOf t)) .nil (fun _ _ => nested_append)
    (hs ▸ .nil) h

theorem nested_enclosed {o c : Char} (h : closer? o = some c) {s t u : String}
    (hs : bracketsOf s = [o]) (hu : bracketsOf u = [c]) (ht : Nested (bracketsOf t)) :
    Nested (bracketsOf (s ++ t ++ u)) := by
  have hpair : Nested (o :: (bracketsOf t ++ [c])) := .pair h ht .nil
  simpa [hs, hu] using hpair

theorem nested_constructorText {name : String} (hn : bracketsOf name = []) {arguments : List String}
    (h : ∀ s ∈ arguments, Nested (bracketsOf s)) :
    Nested (bracketsOf (constructorText name arguments)) := by
  have hopen : bracketsOf "(" = ['('] := by decide
  exact nested_enclosed (o := '(') (c := ')') rfl (by simp [hn, hopen]) (by decide)
    (nested_intercalate (by decide) h)

end Pseudocode
