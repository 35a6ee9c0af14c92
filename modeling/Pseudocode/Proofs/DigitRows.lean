import Mathlib.Data.List.Induction
import Mathlib.Tactic.Positivity
import Mathlib.Tactic.Ring
import Pseudocode.Json.Reader
import Pseudocode.Proofs.NumeralText

/-! Rows of digits and their values. -/

namespace Pseudocode

def allDigits (cs : List Char) : Prop := ∀ c ∈ cs, c.isDigit = true

theorem allDigits_nil : allDigits [] := List.forall_mem_nil _

def noDigitAhead (cs : List Char) : Prop := ∀ c ∈ cs.head?, c.isDigit = false

theorem allDigits_toDigits (n : Nat) : allDigits (Nat.toDigits 10 n) :=
  fun _ hc => Nat.isDigit_of_mem_toDigits (by decide) (by decide) hc

theorem takeWhile_digits {digits rest : List Char} (hd : allDigits digits)
    (hr : noDigitAhead rest) : (digits ++ rest).takeWhile Char.isDigit = digits := by
  rw [List.takeWhile_append_of_pos hd]
  cases rest with
  | nil => simp
  | cons c rest => simp [hr c rfl]

theorem dropWhile_digits {digits rest : List Char} (hd : allDigits digits)
    (hr : noDigitAhead rest) : (digits ++ rest).dropWhile Char.isDigit = rest := by
  rw [List.dropWhile_append_of_pos hd]
  cases rest with
  | nil => simp
  | cons c rest => simp [hr c rfl]

theorem digitsValue_eq (cs : List Char) : digitsValue cs = Nat.ofDigitChars 10 cs 0 := by
  have hstep (n : Nat) :
      cs.foldl (fun n d => n * 10 + (d.toNat - '0'.toNat)) n = Nat.ofDigitChars 10 cs n := by
    rw [Nat.ofDigitChars_eq_foldl]
    simp only [Nat.mul_comm 10]
  exact hstep 0

@[simp] theorem digitsValue_toDigits (n : Nat) : digitsValue (Nat.toDigits 10 n) = n := by
  rw [digitsValue_eq, Nat.ofDigitChars_ten_toDigits]

theorem digitsValue_append (cs ds : List Char) :
    digitsValue (cs ++ ds) = digitsValue cs * 10 ^ ds.length + digitsValue ds := by
  rw [digitsValue_eq, digitsValue_eq, digitsValue_eq, Nat.ofDigitChars_append,
    Nat.ofDigitChars_eq_ofDigitChars_zero, Nat.mul_comm]

theorem digitsValue_zeros (n : Nat) : digitsValue (List.replicate n '0') = 0 := by
  simp [digitsValue_eq]

def isWhole (cs : List Char) : Prop := allDigits cs ∧ (cs = ['0'] ∨ ∃ c ds, cs = c :: ds ∧ c ≠ '0')

theorem toDigits_head {n : Nat} (hn : n ≠ 0) : ∃ c ds, Nat.toDigits 10 n = c :: ds ∧ c ≠ '0' := by
  induction n using Nat.strongRecOn with
  | ind n ih =>
    by_cases hlt : n < 10
    · exact ⟨n.digitChar, [], Nat.toDigits_of_lt_base hlt, by simpa using hn⟩
    · obtain ⟨c, ds, hc, hne⟩ := ih (n / 10) (by omega) (by omega)
      exact ⟨c, ds ++
        [(n % 10).digitChar], by rw [Nat.toDigits_of_base_le (by decide) (by omega), hc]; rfl, hne⟩

theorem allDigits_zero : allDigits ['0'] := by simp [allDigits]

theorem isWhole_zero : isWhole ['0'] := ⟨allDigits_zero, .inl rfl⟩

theorem isWhole_toDigits (n : Nat) : isWhole (Nat.toDigits 10 n) := by
  refine ⟨allDigits_toDigits n, ?_⟩
  by_cases hn : n = 0
  · exact .inl (by simp [hn])
  · exact .inr (toDigits_head hn)

theorem allDigits_zeros (k : Nat) : allDigits (List.replicate k '0') := by
  intro c hc
  rw [List.eq_of_mem_replicate hc]
  decide

theorem allDigits.of_isPrefix {cs ds : List Char} (h : allDigits ds) (hcs : cs <+: ds) :
    allDigits cs :=
  fun c hc => h c (hcs.subset hc)

theorem isWhole.of_isPrefix {cs ds : List Char} (h : isWhole ds) (hcs : cs <+: ds) (hne : cs ≠ []) :
    isWhole cs := by
  obtain ⟨rest, rfl⟩ := hcs
  cases cs with
  | nil => exact absurd rfl hne
  | cons c cs =>
    refine ⟨h.1.of_isPrefix (List.prefix_append _ _), ?_⟩
    rcases h.2 with hzero | ⟨d, ds, hcons, hd⟩
    · obtain ⟨rfl, hnil⟩ := List.cons.inj hzero
      exact .inl (by rw [(List.append_eq_nil_iff.mp hnil).1])
    · exact .inr ⟨c, cs, rfl, (List.cons.inj hcons).1 ▸ hd⟩

theorem isWhole.eq_zero {cs : List Char} (h : isWhole cs) (hzero : ['0'] <+: cs) : cs = ['0'] := by
  rcases h.2 with hall | ⟨c, ds, rfl, hc⟩
  · exact hall
  · exact absurd (List.cons_prefix_cons.mp hzero).1.symm hc

theorem digitsValue_concat (cs : List Char) (c : Char) :
    digitsValue (cs ++ [c]) = digitsValue cs * 10 + (c.toNat - '0'.toNat) := by
  simp [digitsValue]

theorem digit_bounds {c : Char} (h : c.isDigit = true) :
    '0'.toNat ≤ c.toNat ∧ c.toNat ≤ '9'.toNat := by
  simp only [Char.isDigit, Bool.and_eq_true, decide_eq_true_eq] at h
  exact h

theorem digitsValue_lt {cs : List Char} (h : allDigits cs) : digitsValue cs < 10 ^ cs.length := by
  induction cs using List.reverseRecOn with
  | nil => decide
  | append_singleton cs c ih =>
    have hcs := ih (h.of_isPrefix (List.prefix_append _ _))
    obtain ⟨-, hc⟩ := digit_bounds (h c (by simp))
    rw [digitsValue_concat, List.length_append, List.length_singleton, Nat.pow_succ]
    simp only [Char.reduceToNat] at hc ⊢
    omega

theorem le_digitsValue {c : Char} {cs : List Char} (h : allDigits (c :: cs)) (hc : c ≠ '0') :
    10 ^ cs.length ≤ digitsValue (c :: cs) := by
  have hlead : 1 ≤ digitsValue [c] := by
    have hbounds := digit_bounds (h c List.mem_cons_self)
    have hne : c.toNat ≠ '0'.toNat := fun heq => hc (Char.toNat_inj.mp heq)
    simp only [digitsValue, List.foldl_cons, List.foldl_nil]
    omega
  have happend := digitsValue_append [c] cs
  rw [List.singleton_append] at happend
  rw [happend]
  exact (Nat.le_mul_of_pos_left _ hlead).trans (Nat.le_add_right _ _)

theorem isWhole.digitsValue_ne_zero {cs : List Char} (h : isWhole cs) (hne : cs ≠ ['0']) :
    digitsValue cs ≠ 0 := by
  rcases h.2 with hzero | ⟨c, ds, rfl, hc⟩
  · exact absurd hzero hne
  · have hle := le_digitsValue h.1 hc
    have hpos : 0 < 10 ^ ds.length := Nat.pow_pos (by decide)
    omega

theorem digitsValue_le {cs ds : List Char} (h : cs <+: ds) : digitsValue cs ≤ digitsValue ds := by
  obtain ⟨rest, rfl⟩ := h
  rw [digitsValue_append]
  exact (Nat.le_mul_of_pos_right _ (by positivity)).trans (Nat.le_add_right _ _)

theorem toDigits_digitsValue {cs : List Char} (h : isWhole cs) :
    Nat.toDigits 10 (digitsValue cs) = cs := by
  induction cs using List.reverseRecOn with
  | nil => rcases h.2 with h | ⟨c, ds, h, -⟩ <;> cases h
  | append_singleton cs c ih =>
    obtain ⟨hlow, hhigh⟩ := digit_bounds (h.1 c (by simp))
    simp only [Char.reduceToNat] at hlow hhigh
    have hdigit : (c.toNat - 48).digitChar = c := by
      have hall : ∀ n < 10, (Char.ofNat (48 + n)) = n.digitChar := by decide
      rw [← hall _ (by omega), Nat.add_sub_cancel' hlow, Char.ofNat_toNat]
    rw [digitsValue_concat]
    simp only [Char.reduceToNat]
    cases cs with
    | nil =>
      rw [Nat.toDigits_of_lt_base (by simp [digitsValue]; omega)]
      simp [digitsValue, hdigit]
    | cons d ds =>
      have hfront : isWhole (d :: ds) := h.of_isPrefix (List.prefix_append _ _) (by simp)
      have hlead : d ≠ '0' := by
        rcases h.2 with hzero | ⟨e, es, hcons, he⟩
        · simp at hzero
        · exact (List.cons.inj hcons).1 ▸ he
      have hpos := le_digitsValue hfront.1 hlead
      have hone : 1 ≤ 10 ^ ds.length := Nat.one_le_pow _ _ (by decide)
      rw [Nat.toDigits_of_base_le (by decide) (by omega)]
      have hdiv : (digitsValue (d :: ds) * 10 + (c.toNat - 48)) / 10 = digitsValue (d :: ds) := by
        omega
      have hmod : (digitsValue (d :: ds) * 10 + (c.toNat - 48)) % 10 = c.toNat - 48 := by omega
      rw [hdiv, hmod, ih hfront, hdigit]

theorem takeDigits_split (n : Nat) (cs : List Char) :
    ∃ taken, cs = taken ++ (takeDigits n cs).2 ∧
      (takeDigits n cs).1 = n * 10 ^ taken.length + digitsValue taken := by
  induction cs generalizing n with
  | nil => exact ⟨[], rfl, by simp [takeDigits, digitsValue]⟩
  | cons d rest ih =>
    rw [takeDigits]
    split
    · obtain ⟨taken, hrest, hnumber⟩ := ih (n * 10 + (d.toNat - '0'.toNat))
      refine ⟨d :: taken, by rw [List.cons_append, ← hrest], ?_⟩
      have hvalue := digitsValue_append [d] taken
      have hlead : digitsValue [d] = d.toNat - '0'.toNat := by simp [digitsValue]
      rw [List.singleton_append, hlead] at hvalue
      rw [hnumber, hvalue, List.length_cons, Nat.pow_succ]
      ring
    · exact ⟨[], rfl, by simp [digitsValue]⟩

theorem takeDigits_lt {n : Nat} (h : n < 2 ^ 64) (cs : List Char) :
    (takeDigits n cs).1 < 2 ^ 64 := by
  induction cs generalizing n with
  | nil => exact h
  | cons d rest ih =>
    rw [takeDigits]
    split
    · exact ih ‹_›
    · exact h

theorem takeDigits_left {n : Nat} {cs rest : List Char} {d : Char}
    (h : (takeDigits n cs).2 = d :: rest) :
    2 ^ 64 ≤ (takeDigits n cs).1 * 10 + (d.toNat - '0'.toNat) := by
  induction cs generalizing n with
  | nil => cases h
  | cons e es ih =>
    rw [takeDigits] at h ⊢
    split at h
    · rw [if_pos ‹_›]
      exact ih h
    · rw [if_neg ‹_›]
      cases h
      exact not_lt.mp ‹_›

theorem takeDigits_nil_iff {cs : List Char} :
    (takeDigits 0 cs).2 = [] ↔ digitsValue cs < 2 ^ 64 := by
  obtain ⟨taken, hsplit, hnumber⟩ := takeDigits_split 0 cs
  rw [Nat.zero_mul, Nat.zero_add] at hnumber
  constructor
  · intro hnil
    rw [hnil, List.append_nil] at hsplit
    rw [hsplit, ← hnumber]
    exact takeDigits_lt (by decide) cs
  · intro hlt
    cases hleft : (takeDigits 0 cs).2 with
    | nil => rfl
    | cons d rest =>
      have hfull := takeDigits_left hleft
      have hprefix : taken ++ [d] <+: cs :=
        ⟨rest, by rw [hsplit, hleft, List.append_assoc, List.singleton_append]⟩
      have hle := digitsValue_le hprefix
      rw [digitsValue_concat, ← hnumber] at hle
      omega

theorem takeDigits_whole {cs : List Char} (h : digitsValue cs < 2 ^ 64) :
    takeDigits 0 cs = (digitsValue cs, []) := by
  obtain ⟨taken, hsplit, hnumber⟩ := takeDigits_split 0 cs
  have hnil := takeDigits_nil_iff.mpr h
  rw [hnil, List.append_nil] at hsplit
  rw [Nat.zero_mul, Nat.zero_add, ← hsplit] at hnumber
  exact Prod.ext hnumber hnil

end Pseudocode
