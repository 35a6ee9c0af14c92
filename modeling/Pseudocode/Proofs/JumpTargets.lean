import Mathlib.Data.List.Sort
import Mathlib.Logic.Function.Iterate
import Pseudocode.Proofs.Locality

/-! The jumps of a script. The collector takes one pending expression after the
other and puts the operands of each in front of the rest. So it takes the nodes of
the script in the order of the walk, and is done behind the last one; what it has
found are the offsets of all jumps, at whatever depth they stand. Where it finds
an offset in the operand of a computed jump, rendering names the label of that
offset. -/

namespace Pseudocode

/-- Where a node by itself jumps to. The operand of a computed jump tells, if it
is a constant that can be an offset. -/
inductive Node.JumpsTo : Node Expr → UInt32 → Prop
  | jump (n : UInt32) : JumpsTo (.jump n) n
  | jumpIfNot (n : UInt32) (condition : Expr) : JumpsTo (.jumpIfNot n condition) n
  | toInteger {operand : Expr} {value : Int32} {n : UInt32} :
      operand.node = .int32 value → value.toInt = n.toNat → JumpsTo (.computedJump operand) n
  | toOffset {operand : Expr} {n : UInt32} :
      operand.node = .skipOffset n → JumpsTo (.computedJump operand) n

theorem constantOffset?_eq_some {node : Node Expr} {n : UInt32} :
    constantOffset? node = some n ↔
      (∃ value, node = .int32 value ∧ value.toInt = n.toNat) ∨ node = .skipOffset n := by
  cases node with
  | int32 value =>
    have hlt := value.toInt_lt
    have hn := n.toNat_lt
    have hsign : 0 ≤ value ↔ 0 ≤ value.toInt := by simp [Int32.le_iff_toInt_le]
    have hback (h : 0 ≤ value.toInt) : value.toInt.toNat.toUInt32 = n ↔ value.toInt = n.toNat := by
      rw [← UInt32.toNat_inj, Nat.toUInt32_eq, UInt32.toNat_ofNat']
      omega
    by_cases hv : 0 ≤ value.toInt
    · rw [constantOffset?, if_pos (hsign.mpr hv), Option.some.injEq, hback hv]
      simp
    · have hne : value.toInt ≠ n.toNat := by omega
      simp [constantOffset?, hsign, hv, hne]
  | _ => simp [constantOffset?]

theorem Node.computedJump_jumpsTo {operand : Expr} {n : UInt32} :
    (Node.computedJump operand).JumpsTo n ↔ constantOffset? operand.node = some n := by
  rw [constantOffset?_eq_some]
  constructor
  · rintro (_ | _ | ⟨hnode, hvalue⟩ | hnode)
    · exact .inl ⟨_, hnode, hvalue⟩
    · exact .inr hnode
  · rintro (⟨value, hnode, hvalue⟩ | hnode)
    · exact .toInteger hnode hvalue
    · exact .toOffset hnode

theorem Node.jumpsTo_iff {node : Node Expr} {n : UInt32} :
    node.JumpsTo n ↔ jumpOffset? node = some n := by
  cases node with
  | jump offset =>
    refine ⟨fun h => by cases h; rfl, fun h => ?_⟩
    obtain rfl : offset = n := by simpa [jumpOffset?] using h
    exact .jump offset
  | jumpIfNot offset condition =>
    refine ⟨fun h => by cases h; rfl, fun h => ?_⟩
    obtain rfl : offset = n := by simpa [jumpOffset?] using h
    exact .jumpIfNot offset condition
  | computedJump operand => exact computedJump_jumpsTo
  | _ => exact ⟨nofun, nofun⟩

theorem mem_insertOffset {n offset : UInt32} {os : List UInt32} :
    n ∈ insertOffset offset os ↔ n = offset ∨ n ∈ os := by
  induction os with
  | nil => simp [insertOffset]
  | cons o os ih =>
    unfold insertOffset
    split
    · simp
    · split
      · next h => simp [h]
      · simp [ih, or_left_comm]

theorem insertOffset_ascending (offset : UInt32) {os : List UInt32} (h : os.Pairwise (· < ·)) :
    (insertOffset offset os).Pairwise (· < ·) := by
  induction os with
  | nil => simp [insertOffset]
  | cons o os ih =>
    obtain ⟨ho, hos⟩ := List.pairwise_cons.mp h
    unfold insertOffset
    split
    · next hlt =>
      refine List.pairwise_cons.mpr ⟨fun n hn => ?_, h⟩
      rcases List.mem_cons.mp hn with rfl | hn
      · exact hlt
      · exact UInt32.lt_trans hlt (ho n hn)
    · next hle =>
      split
      · exact h
      · next hne =>
        have hlt : o < offset := UInt32.lt_of_le_of_ne (UInt32.not_lt.mp hle) (Ne.symm hne)
        refine List.pairwise_cons.mpr ⟨fun n hn => ?_, ih hos⟩
        rcases mem_insertOffset.mp hn with rfl | hn
        · exact hlt
        · exact ho n hn

def collectNext : List UInt32 × List Expr → List UInt32 × List Expr
  | (targets, []) => (targets, [])
  | (targets, e :: rest) =>
    (match jumpOffset? e.node with
      | some offset => insertOffset offset targets
      | none => targets,
      e.children ++ rest)

theorem collectTargets_next (state : List UInt32 × List Expr) :
    collectTargets (collectNext state).1 (collectNext state).2 =
      collectTargets state.1 state.2 := by
  obtain ⟨targets, pending⟩ := state
  cases pending with
  | nil => rfl
  | cons e rest =>
    conv_rhs => rw [collectTargets]
    rfl

theorem mem_collectNext {n : UInt32} {targets : List UInt32} {e : Expr} {rest : List Expr} :
    n ∈ (collectNext (targets, e :: rest)).1 ↔ n ∈ targets ∨ e.node.JumpsTo n := by
  rw [Node.jumpsTo_iff]
  cases h : jumpOffset? e.node with
  | none => simp [collectNext, h]
  | some offset => simp [collectNext, h, mem_insertOffset, or_comm, eq_comm]

theorem collectNext_ascending {state : List UInt32 × List Expr} (h : state.1.Pairwise (· < ·)) :
    (collectNext state).1.Pairwise (· < ·) := by
  obtain ⟨targets, pending⟩ := state
  cases pending with
  | nil => exact h
  | cons e rest =>
    cases hoffset : jumpOffset? e.node with
    | none => simpa [collectNext, hoffset] using h
    | some offset => simpa [collectNext, hoffset] using insertOffset_ascending offset h

/-- How far the collector is with a script when it has taken so many nodes. -/
structure Collected (script : List Expr) (taken : Nat) (state : List UInt32 × List Expr) :
    Prop where
  pending : scriptWalk state.2 = (scriptWalk script).drop taken
  ascending : state.1.Pairwise (· < ·)
  found : ∀ n, n ∈ state.1 ↔ ∃ x ∈ (scriptWalk script).take taken, x.node.JumpsTo n
  result : collectTargets state.1 state.2 = jumpTargets script

theorem collected_start (script : List Expr) : Collected script 0 ([], script) :=
  ⟨rfl, .nil, by simp, rfl⟩

theorem Collected.next {script : List Expr} {taken : Nat} {state : List UInt32 × List Expr}
    (h : Collected script taken state) : Collected script (taken + 1) (collectNext state) := by
  have hpending := h.pending
  have hresult := (collectTargets_next state).trans h.result
  have hascending := collectNext_ascending h.ascending
  obtain ⟨targets, pending⟩ := state
  cases pending with
  | nil =>
    have hlength : (scriptWalk script).length ≤ taken := List.drop_eq_nil_iff.mp hpending.symm
    have hdrop : (scriptWalk script).drop (taken + 1) = [] := List.drop_eq_nil_of_le (by omega)
    refine ⟨hdrop.symm, hascending, fun n => ?_, hresult⟩
    rw [List.take_of_length_le (by omega)]
    simpa [collectNext, List.take_of_length_le hlength] using h.found n
  | cons e rest =>
    rw [scriptWalk_cons] at hpending
    have hdrop : (scriptWalk script).drop (taken + 1) = scriptWalk (e.children ++ rest) := by
      rw [← List.drop_drop, ← hpending]
      rfl
    have htake : (scriptWalk script).take (taken + 1) = (scriptWalk script).take taken ++ [e] := by
      rw [List.take_add, ← hpending]
      rfl
    refine ⟨hdrop.symm, hascending, fun n => ?_, hresult⟩
    rw [mem_collectNext, h.found, htake]
    simp [or_and_right, exists_or]

theorem collected_iterate (script : List Expr) (taken : Nat) :
    Collected script taken (collectNext^[taken] ([], script)) := by
  induction taken with
  | zero => exact collected_start script
  | succ taken ih =>
    rw [Function.iterate_succ_apply']
    exact ih.next

/-- The collector has nothing left to take when it has taken every node once, and
not before. -/
theorem collectNext_pending (script : List Expr) (taken : Nat) :
    (collectNext^[taken] ([], script)).2 = [] ↔ (scriptWalk script).length ≤ taken := by
  rw [← scriptWalk_eq_nil, (collected_iterate script taken).pending, List.drop_eq_nil_iff]

theorem collectNext_result (script : List Expr) :
    collectNext^[(scriptWalk script).length] ([], script) = (jumpTargets script, []) := by
  have hdone := (collectNext_pending script _).mpr (Nat.le_refl _)
  have hresult := (collected_iterate script (scriptWalk script).length).result
  rw [hdone, collectTargets] at hresult
  exact Prod.ext hresult hdone

theorem jumpTargets_ascending (script : List Expr) : (jumpTargets script).Pairwise (· < ·) := by
  have h := (collected_iterate script (scriptWalk script).length).ascending
  rwa [collectNext_result] at h

theorem mem_jumpTargets {script : List Expr} {n : UInt32} :
    n ∈ jumpTargets script ↔ ∃ x ∈ scriptWalk script, x.node.JumpsTo n := by
  have h := (collected_iterate script (scriptWalk script).length).found n
  rwa [collectNext_result, List.take_length] at h

theorem mem_jumpTargets_append {a b : List Expr} {n : UInt32} :
    n ∈ jumpTargets (a ++ b) ↔ n ∈ jumpTargets a ∨ n ∈ jumpTargets b := by
  simp only [mem_jumpTargets, scriptWalk_append, List.mem_append, or_and_right, exists_or]

theorem jumpTargets_perm {a b : List Expr} (h : a.Perm b) : jumpTargets a = jumpTargets b := by
  refine (jumpTargets_ascending a).eq_of_mem_iff (jumpTargets_ascending b) fun n => ?_
  have hwalk : (scriptWalk a).Perm (scriptWalk b) := h.flatMap_right Expr.walk
  simp only [mem_jumpTargets, hwalk.mem_iff]

theorem renderExpression_computedJump {index : UInt32} {targets : List UInt32} (h : index ∉ targets)
    (operand : Expr) (o : RenderOptions) :
    renderExpression ⟨index, .computedJump operand⟩ targets .expression o =
      "goto " ++ match constantOffset? operand.node with
        | some n => labelName n
        | none => renderExpression operand targets .expression o := by
  obtain ⟨fresh, hfresh⟩ : ∃ fresh : Renderer, fresh = { targets, options := o } := ⟨_, rfl⟩
  have hlabel : fresh.wants index = false := by simp [hfresh, Renderer.wants, h]
  have henter : fresh.emitLabel index .expression = fresh := by simp [Renderer.emitLabel_eq, hlabel]
  have hlog (ps : List Piece) : fresh.log (.enter index .expression :: .text "goto " :: ps) =
      .enter index .expression :: .write "goto " :: (fresh.write "goto ").log ps := by
    simp only [Renderer.log, Renderer.events, hlabel, henter, Renderer.put]
    simp
  rw [renderExpression_eq, ← hfresh, Expr.pieces_eq]
  cases hoffset : constantOffset? operand.node with
  | some n =>
    have hpieces : (Node.layout o .expression (.computedJump operand)).flatMap (Part.pieces o) =
        [.text "goto ", .text (labelName n)] := by
      simp [Node.layout, hoffset, RenderMode.wrap, RenderMode.inStatement, Part.pieces]
    rw [hpieces, hlog]
    simp [Renderer.log, Renderer.events, eventsText, Event.text]
  | none =>
    have hpieces : (Node.layout o .expression (.computedJump operand)).flatMap (Part.pieces o) =
        .text "goto " :: operand.pieces o .expression := by
      simp [Node.layout, hoffset, RenderMode.wrap, RenderMode.inStatement, Part.pieces]
    have hbehind : (fresh.write "goto ").log (operand.pieces o .expression) =
        fresh.log (operand.pieces o .expression) :=
      log_expression operand fun n => by simp [Renderer.wants]
    rw [hpieces, hlog, hbehind, renderExpression_eq, ← hfresh]
    simp [eventsText, Event.text, String.join_cons]

/-- The collector ends with the last node of a script, and has found exactly where
the nodes of the script jump to: each offset once, in ascending order, however the
statements are put together. A computed jump is rendered with the label of the
offset that is found in it, and with its operand if none is. -/
theorem jumpTargets_exact (script : List Expr) :
    (∀ taken, (collectNext^[taken] ([], script)).2 = [] ↔ (scriptWalk script).length ≤ taken) ∧
    collectNext^[(scriptWalk script).length] ([], script) = (jumpTargets script, []) ∧
    (jumpTargets script).Pairwise (· < ·) ∧
    (∀ n, n ∈ jumpTargets script ↔ ∃ x ∈ scriptWalk script, x.node.JumpsTo n) ∧
    (∀ other n, n ∈ jumpTargets (script ++ other) ↔ n ∈ jumpTargets script ∨
      n ∈ jumpTargets other) ∧
    (∀ other, script.Perm other → jumpTargets script = jumpTargets other) ∧
    ∀ (index : UInt32) (operand : Expr) (targets : List UInt32) (o : RenderOptions),
      index ∉ targets →
      (∀ n, (Node.computedJump operand).JumpsTo n →
        renderExpression ⟨index, .computedJump operand⟩ targets .expression o =
          "goto " ++ labelName n) ∧
      ((∀ n, ¬ (Node.computedJump operand).JumpsTo n) →
        renderExpression ⟨index, .computedJump operand⟩ targets .expression o =
          "goto " ++ renderExpression operand targets .expression o) := by
  refine ⟨collectNext_pending script, collectNext_result script, jumpTargets_ascending script,
    fun _ => mem_jumpTargets, fun _ _ => mem_jumpTargets_append, fun _ => jumpTargets_perm, ?_⟩
  intro index operand targets o hindex
  rw [renderExpression_computedJump hindex]
  refine ⟨fun n hn => ?_, fun hnone => ?_⟩
  · rw [Node.computedJump_jumpsTo.mp hn]
  · have hoffset : constantOffset? operand.node = none := by
      rw [Option.eq_none_iff_forall_ne_some]
      exact fun n hn => hnone n (Node.computedJump_jumpsTo.mpr hn)
    rw [hoffset]

def scatteredJumps : List Expr := [
  ⟨0, .jump 40⟩,
  ⟨5, .jumpIfNot 12 ⟨10, .computedJump ⟨11, .int32 77⟩⟩⟩]

theorem jumpTargets_exact_scattered :
    scatteredJumps.Perm scatteredJumps.reverse ∧
    jumpTargets scatteredJumps = jumpTargets scatteredJumps.reverse ∧
    77 ∈ jumpTargets scatteredJumps ∧
    renderExpression ⟨10, .computedJump ⟨11, .int32 77⟩⟩ [77] .expression ⟨false⟩ =
      "goto Label_77" ∧
    renderExpression ⟨10, .computedJump ⟨11, .int32 (-1)⟩⟩ [11] .expression ⟨false⟩ =
      "goto " ++ renderExpression ⟨11, .int32 (-1)⟩ [11] .expression ⟨false⟩ := by
  obtain ⟨-, -, -, hfound, -, horder, hcomputed⟩ := jumpTargets_exact scatteredJumps
  have hperm : scatteredJumps.Perm scatteredJumps.reverse := (List.reverse_perm _).symm
  have hjump : (Node.computedJump ⟨11, .int32 77⟩).JumpsTo 77 := .toInteger rfl (by decide)
  have hnone : ∀ n, ¬ (Node.computedJump ⟨11, .int32 (-1)⟩).JumpsTo n := by
    rintro n (_ | _ | ⟨hnode, hvalue⟩ | hnode)
    · obtain rfl := Node.int32.inj hnode
      have hminus : (-1 : Int32).toInt = -1 := by decide
      omega
    · cases hnode
  refine ⟨hperm, horder _ hperm, (hfound 77).mpr ⟨⟨10, .computedJump ⟨11, .int32 77⟩⟩, ?_, hjump⟩,
    (hcomputed 10 _ [77] ⟨false⟩ (by decide)).1 77 hjump,
    (hcomputed 10 _ [11] ⟨false⟩ (by decide)).2 hnone⟩
  simp [scatteredJumps, scriptWalk, Expr.walk_eq, Expr.children, Node.children]

end Pseudocode
