import Pseudocode.Decimal.Shortest
import Pseudocode.Proofs.Rounding

/-! Grids of decimals around a number. The point that is taken of a grid is one
of the two next to the number, and lies in its interval if the grid is finer
than that. -/

namespace Pseudocode

def Numeral.toRat (n : Numeral) : ℚ := n.coefficient * 10 ^ n.exponent

theorem scaled_eq {b : Nat} (hb : 0 < b) (c : Nat) (k : Int) :
    ((c * b ^ k.toNat : Nat) : ℚ) / ((b ^ (-k).toNat : Nat) : ℚ) = c * (b : ℚ) ^ k := by
  have hbase : (b : ℚ) ≠ 0 := by exact_mod_cast hb.ne'
  have hsplit : (b : ℚ) ^ k = b ^ k.toNat / b ^ (-k).toNat := by
    have hk : k = (k.toNat : Int) - ((-k).toNat : Int) := by omega
    conv_lhs => rw [hk]
    rw [zpow_sub₀ hbase, zpow_natCast, zpow_natCast]
  rw [hsplit]
  push_cast
  ring

theorem digits_bounds {n : Nat} (hn : 0 < n) :
    (10 : ℚ) ^ (((toString n).length : Int) - 1) ≤ n ∧
      (n : ℚ) < 10 ^ ((toString n).length : Int) := by
  have hpos : 0 < (toString n).length := Nat.length_repr_pos
  have hhigh : n < 10 ^ (toString n).length := (Nat.length_repr_le_iff hpos).mp le_rfl
  have hlow : 10 ^ ((toString n).length - 1) ≤ n := by
    by_cases hone : (toString n).length = 1
    · rw [hone]
      exact hn
    · refine not_lt.mp fun h => ?_
      have hle : (toString n).length ≤ (toString n).length - 1 :=
        (Nat.length_repr_le_iff (by omega)).mpr h
      omega
  have hcast : (((toString n).length - 1 : Nat) : Int) = (toString n).length - 1 := by omega
  exact ⟨by rw [← hcast, zpow_natCast]; exact_mod_cast hlow, by
    rw [zpow_natCast]; exact_mod_cast hhigh⟩

namespace Neighbourhood

variable {f : BinaryFormat} {s : Nat} {e : Int}

theorem den_pos (f : BinaryFormat) (s : Nat) (e : Int) : (0 : ℚ) < (ofFinite f s e).den := by
  simp [ofFinite]

theorem quarter_eq (e : Int) : (2 : ℚ) ^ (e - 2).toNat / 2 ^ (2 - e).toNat = 2 ^ e / 4 := by
  have hscaled := scaled_eq Nat.two_pos 1 (e - 2)
  rw [neg_sub, one_mul, Nat.cast_one, one_mul] at hscaled
  push_cast at hscaled
  rw [hscaled, zpow_sub₀ two_ne_zero]
  norm_num

theorem value_div (f : BinaryFormat) (s : Nat) (e : Int) :
    ((ofFinite f s e).value : ℚ) / (ofFinite f s e).den = s * 2 ^ e := by
  have hquarter := quarter_eq e
  simp only [ofFinite, Nat.pow_eq]
  push_cast
  rw [mul_div_assoc, hquarter]
  ring

theorem high_div (f : BinaryFormat) (s : Nat) (e : Int) :
    ((ofFinite f s e).high : ℚ) / (ofFinite f s e).den = (s + 1 / 2) * 2 ^ e := by
  have hquarter := quarter_eq e
  simp only [ofFinite, Nat.pow_eq]
  push_cast
  rw [mul_div_assoc, hquarter]
  ring

theorem low_div (hs : 0 < s) :
    ((ofFinite f s e).low : ℚ) / (ofFinite f s e).den = (s - f.reachBelow s e) * 2 ^ e := by
  have hquarter := quarter_eq e
  simp only [ofFinite, Nat.pow_eq, BinaryFormat.reachBelow]
  split
  · rw [Nat.cast_mul, Nat.cast_sub (by omega)]
    push_cast
    rw [mul_div_assoc, hquarter]
    ring
  · rw [Nat.cast_mul, Nat.cast_sub (by omega)]
    push_cast
    rw [mul_div_assoc, hquarter]
    ring

theorem contains_iff (hs : 0 < s) {n d : Nat} (hd : 0 < d) :
    (ofFinite f s e).contains n d = true ↔ f.isNear s e (n / d) := by
  have hden := den_pos f s e
  have hdq : (0 : ℚ) < d := by exact_mod_cast hd
  have hclosed : (ofFinite f s e).closed = decide (s % 2 = 0) := rfl
  have hlow : (ofFinite f s e).low * d ≤ n * (ofFinite f s e).den ↔
      (s - f.reachBelow s e) * 2 ^ e ≤ (n / d : ℚ) := by
    rw [← low_div hs, div_le_div_iff₀ hden hdq]
    norm_cast
  have hlow' : (ofFinite f s e).low * d < n * (ofFinite f s e).den ↔
      (s - f.reachBelow s e) * 2 ^ e < (n / d : ℚ) := by
    rw [← low_div hs, div_lt_div_iff₀ hden hdq]
    norm_cast
  have hhigh : n * (ofFinite f s e).den ≤ (ofFinite f s e).high * d ↔
      (n / d : ℚ) ≤ (s + 1 / 2) * 2 ^ e := by
    rw [← high_div f, div_le_div_iff₀ hdq hden]
    norm_cast
  have hhigh' : n * (ofFinite f s e).den < (ofFinite f s e).high * d ↔
      (n / d : ℚ) < (s + 1 / 2) * 2 ^ e := by
    rw [← high_div f, div_lt_div_iff₀ hdq hden]
    norm_cast
  unfold contains BinaryFormat.isNear
  rw [hclosed]
  by_cases heven : s % 2 = 0
  · simp [heven, hlow, hhigh]
  · simp only [heven, decide_false, Bool.false_eq_true, if_false, Bool.and_eq_true,
      decide_eq_true_eq, hlow', hhigh', false_or]
    exact ⟨fun h => ⟨h.1.le, h.2.le, h⟩, fun h => h.2.2⟩

theorem gridPoint_eq (c : Nat) (k : Int) :
    ((c * 10 ^ k.toNat : Nat) : ℚ) / ((10 ^ (-k).toNat : Nat) : ℚ) = c * 10 ^ k :=
  scaled_eq (b := 10) (by decide) c k

theorem contains_gridPoint (hs : 0 < s) (c : Nat) (k : Int) :
    (ofFinite f s e).contains (c * 10 ^ k.toNat) (10 ^ (-k).toNat) = true ↔
      f.isNear s e (c * 10 ^ k) := by
  rw [contains_iff hs (by positivity), gridPoint_eq]

/-- The last point of the grid in front of the number. -/
def gridFloor (v : Neighbourhood) (k : Int) : Nat :=
  v.value * 10 ^ (-k).toNat / (v.den * 10 ^ k.toNat)

theorem gridFloor_bounds (f : BinaryFormat) (s : Nat) (e k : Int) :
    ((ofFinite f s e).gridFloor k : ℚ) * 10 ^ k ≤ s * 2 ^ e ∧
      (s * 2 ^ e : ℚ) < ((ofFinite f s e).gridFloor k + 1) * 10 ^ k := by
  have hden : 0 < (ofFinite f s e).den := by exact_mod_cast den_pos f s e
  have hscale : 0 < (ofFinite f s e).den * 10 ^ k.toNat := by positivity
  have hfloor := Nat.div_mul_le_self ((ofFinite f s e).value * 10 ^ (-k).toNat)
    ((ofFinite f s e).den * 10 ^ k.toNat)
  have hceil := Nat.lt_mul_of_div_lt (Nat.lt_succ_self (((ofFinite f s e).value * 10 ^ (-k).toNat) /
    ((ofFinite f s e).den * 10 ^ k.toNat))) hscale
  have hq := value_div f s e
  have hpoint := gridPoint_eq ((ofFinite f s e).gridFloor k) k
  have hpoint' := gridPoint_eq ((ofFinite f s e).gridFloor k + 1) k
  have hdenq : (0 : ℚ) < (ofFinite f s e).den := by exact_mod_cast hden
  have hdown : (0 : ℚ) < ((10 ^ (-k).toNat : Nat) : ℚ) := by positivity
  rw [← hq, ← hpoint]
  push_cast at hpoint'
  rw [← hpoint', div_le_div_iff₀ hdown hdenq, div_lt_div_iff₀ hdenq (by positivity)]
  refine ⟨?_, ?_⟩
  · have hle : (ofFinite f s e).gridFloor k * 10 ^ k.toNat * (ofFinite f s e).den ≤
        (ofFinite f s e).value * 10 ^ (-k).toNat := by
      unfold gridFloor
      linarith
    exact_mod_cast hle
  · have hlt : (ofFinite f s e).value * 10 ^ (-k).toNat <
        ((ofFinite f s e).gridFloor k + 1) * 10 ^ k.toNat * (ofFinite f s e).den := by
      unfold gridFloor
      have hsucc : ∀ n : Nat, n.succ = n + 1 := fun _ => rfl
      rw [hsucc] at hceil
      linarith
    exact_mod_cast hlt

/-- The point that is taken is one of the two next to the number. -/
theorem onGrid?_eq (v : Neighbourhood) (tie : Tie) (k : Int) :
    ∃ nearer, (nearer = v.gridFloor k ∨ nearer = v.gridFloor k + 1) ∧
      v.onGrid? tie k =
        match v.contains (v.gridFloor k * 10 ^ k.toNat) (10 ^ (-k).toNat),
          v.contains ((v.gridFloor k + 1) * 10 ^ k.toNat) (10 ^ (-k).toNat) with
        | true, true => some ⟨nearer, k⟩
        | true, false => some ⟨v.gridFloor k, k⟩
        | false, true => some ⟨v.gridFloor k + 1, k⟩
        | false, false => none := by
  refine ⟨_, ?_, rfl⟩
  change (if _ then v.gridFloor k else if _ then v.gridFloor k + 1 else _) = _ ∨ _
  split
  · exact .inl rfl
  · split
    · exact .inr rfl
    · cases tie with
      | up => exact .inr rfl
      | even =>
        have hparity := Nat.mod_two_eq_zero_or_one (v.gridFloor k)
        change v.gridFloor k + v.gridFloor k % 2 = v.gridFloor k ∨
          v.gridFloor k + v.gridFloor k % 2 = v.gridFloor k + 1
        omega

theorem onGrid?_eq_some {v : Neighbourhood} {tie : Tie} {k : Int} {n : Numeral}
    (h : v.onGrid? tie k = some n) :
    n.exponent = k ∧ v.contains (n.coefficient * 10 ^ k.toNat) (10 ^ (-k).toNat) = true := by
  obtain ⟨nearer, hnearer, heq⟩ := v.onGrid?_eq tie k
  rw [heq] at h
  split at h
  · cases h
    rcases hnearer with rfl | rfl <;> exact ⟨rfl, ‹_›⟩
  · cases h
    exact ⟨rfl, ‹_›⟩
  · cases h
    exact ⟨rfl, ‹_›⟩
  · cases h

theorem onGrid?_eq_none {v : Neighbourhood} {tie : Tie} {k : Int} (h : v.onGrid? tie k = none) :
    v.contains (v.gridFloor k * 10 ^ k.toNat) (10 ^ (-k).toNat) = false ∧
      v.contains ((v.gridFloor k + 1) * 10 ^ k.toNat) (10 ^ (-k).toNat) = false := by
  obtain ⟨nearer, -, heq⟩ := v.onGrid?_eq tie k
  rw [heq] at h
  split at h <;> simp_all

/-- A grid that is finer than the interval of the number has a point in it. -/
theorem onGrid?_ne_none (hs : 0 < s) (tie : Tie) {k : Int}
    (hfine : (10 : ℚ) ^ k < (1 / 2 + f.reachBelow s e) * 2 ^ e) :
    (ofFinite f s e).onGrid? tie k ≠ none := by
  intro h
  obtain ⟨hfloor, hceil⟩ := onGrid?_eq_none h
  have hstep : (0 : ℚ) < 2 ^ e := by positivity
  have hbounds := gridFloor_bounds f s e k
  have hreach := f.reachBelow_pos s e
  -- otherwise the points next to the number enclose its interval, which is longer than one step
  have hfloor' : ((ofFinite f s e).gridFloor k : ℚ) * 10 ^ k ≤ (s - f.reachBelow s e) * 2 ^ e := by
    by_contra hlow
    have hnear : f.isNear s e ((ofFinite f s e).gridFloor k * 10 ^ k) := by
      have habove : (s * 2 ^ e : ℚ) < (s + 1 / 2) * 2 ^ e :=
        mul_lt_mul_of_pos_right (by linarith) hstep
      exact ⟨(not_le.mp hlow).le, (hbounds.1.trans_lt habove).le,
        .inr ⟨not_le.mp hlow, hbounds.1.trans_lt habove⟩⟩
    rw [(contains_gridPoint hs _ _).mpr hnear] at hfloor
    cases hfloor
  have hceil' : (s + 1 / 2) * 2 ^ e ≤ (((ofFinite f s e).gridFloor k + 1 : Nat) : ℚ) * 10 ^ k := by
    by_contra hhigh
    have hnear : f.isNear s e (((ofFinite f s e).gridFloor k + 1 : Nat) * 10 ^ k) := by
      have hbelow : (s - f.reachBelow s e) * 2 ^ e < (s * 2 ^ e : ℚ) :=
        mul_lt_mul_of_pos_right (by linarith) hstep
      have hlow : (s - f.reachBelow s e) * 2 ^ e < (((ofFinite f s e).gridFloor k + 1 : Nat) : ℚ) *
          10 ^ k := by
        push_cast
        exact hbelow.trans hbounds.2
      exact ⟨hlow.le, (not_le.mp hhigh).le, .inr ⟨hlow, not_le.mp hhigh⟩⟩
    rw [(contains_gridPoint hs _ _).mpr hnear] at hceil
    cases hceil
  push_cast at hceil'
  linarith

/-- If the last of the grids has a point that is near, the one that is taken is. -/
theorem firstOnGrid_near (hs : 0 < s) (tie : Tie) {grids : Nat} {exponent : Int}
    (hlast : (ofFinite f s e).onGrid? tie (exponent - grids) ≠ none) :
    f.isNear s e ((ofFinite f s e).firstOnGrid tie (grids + 1) exponent).toRat := by
  induction grids generalizing exponent with
  | zero =>
    rw [firstOnGrid]
    cases hgrid : (ofFinite f s e).onGrid? tie exponent with
    | none => exact absurd (by simpa using hgrid) hlast
    | some n =>
      obtain ⟨rfl, hn⟩ := onGrid?_eq_some hgrid
      exact (contains_gridPoint hs _ _).mp hn
  | succ grids ih =>
    rw [firstOnGrid]
    cases hgrid : (ofFinite f s e).onGrid? tie exponent with
    | none =>
      refine ih ?_
      have hsame : exponent - 1 - grids = exponent - (grids + 1 : Nat) := by push_cast; ring
      rwa [hsame]
    | some n =>
      obtain ⟨rfl, hn⟩ := onGrid?_eq_some hgrid
      exact (contains_gridPoint hs _ _).mp hn

end Neighbourhood

end Pseudocode
