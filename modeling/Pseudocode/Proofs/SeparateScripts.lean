import Pseudocode.Proofs.JumpTargets

/-! Scripts that do not jump into each other. Put one behind the other, they are
rendered to the one text behind the other: a target that no node of a script has
is irrelevant to it, and what the first script leaves behind, its written labels
and the end of its last line, does not concern the second. -/

namespace Pseudocode

/-- Whether no jump of a script leads to a node of another one. -/
def keepsOutOf (script other : List Expr) : Prop :=
  ∀ n ∈ jumpTargets script, ∀ x ∈ scriptWalk other, x.index ≠ n

/-- The first of two scripts is rendered as by itself, if the second does not jump
into it. -/
theorem log_first {a b : List Expr} (hba : keepsOutOf b a) (o : RenderOptions) :
    Renderer.log { targets := jumpTargets (a ++ b), options := o } (scriptPieces o a) =
      Renderer.log { targets := jumpTargets a, options := o } (scriptPieces o a) := by
  refine Renderer.log_congr (fun n hn => ?_) fun _ => rfl
  obtain ⟨x, hx, rfl⟩ := mem_walk_of_entered hn
  have hforeign : x.index ∉ jumpTargets b := fun hmem => hba _ hmem x hx rfl
  rw [Bool.eq_iff_iff, Renderer.wants_iff, Renderer.wants_iff, mem_jumpTargets_append]
  simp [hforeign]

/-- The second is too, if the first does not jump into it and ends its lines. -/
theorem log_second {a b : List Expr} (hab : keepsOutOf a b) (hba : keepsOutOf b a)
    {o : RenderOptions} (h : startsLine (renderStatements a o)) :
    ((scriptPieces o a).foldl Renderer.put { targets := jumpTargets (a ++ b), options := o }).log
      (scriptPieces o b) =
      Renderer.log { targets := jumpTargets b, options := o } (scriptPieces o b) := by
  refine Renderer.log_congr (fun n hn => ?_) fun _ => ?_
  · obtain ⟨x, hx, rfl⟩ := mem_walk_of_entered hn
    have hforeign : x.index ∉ jumpTargets a := fun hmem => hab _ hmem x hx rfl
    have hfree (hmem : x.index ∈ jumpTargets b) :
        x.index ∉ ((scriptPieces o a).filterMap Piece.entered?).map Prod.fst := by
      intro hentered
      obtain ⟨y, hy, hindex⟩ := mem_walk_of_entered hentered
      exact hba _ hmem y hy hindex
    rw [Bool.eq_iff_iff, Renderer.wants_foldl_put, Renderer.wants_iff, Renderer.wants_iff,
      mem_jumpTargets_append]
    constructor
    · rintro ⟨⟨hmem, -⟩, -⟩
      exact ⟨hmem.resolve_left hforeign, by simp⟩
    · rintro ⟨hmem, -⟩
      exact ⟨⟨.inr hmem, by simp⟩, hfree hmem⟩
  · have hsettled := (Renderer.settled_new (jumpTargets (a ++ b)) o).foldl_put (scriptPieces o a)
    refine hsettled.mpr ?_
    rw [Renderer.foldl_put_text, log_first hba, ← renderStatements_eq]
    simpa using h

/-- Two scripts that do not jump into each other are rendered one behind the
other, if the first ends its lines. -/
theorem renderStatements_append {a b : List Expr} {o : RenderOptions} (hab : keepsOutOf a b)
    (hba : keepsOutOf b a) (h : startsLine (renderStatements a o)) :
    renderStatements (a ++ b) o = renderStatements a o ++ renderStatements b o := by
  have hpieces : scriptPieces o (a ++ b) = scriptPieces o a ++ scriptPieces o b :=
    List.flatMap_append
  rw [renderStatements_eq, hpieces, Renderer.log_append, eventsText_append, log_first hba,
    log_second hab hba h, ← renderStatements_eq, ← renderStatements_eq]

def endlessLoop (start : UInt32) : List Expr := [
  ⟨start,
    .letKind .bool ⟨start + 1, .var .stackLocal (.legacy "Done")⟩ ⟨start + 2, .atom .trueConst⟩⟩,
  ⟨start + 3, .jump start⟩]

theorem renderStatements_append_loops :
    keepsOutOf (endlessLoop 0) (endlessLoop 10) ∧ keepsOutOf (endlessLoop 10) (endlessLoop 0) ∧
    startsLine (renderStatements (endlessLoop 0) ⟨false⟩) ∧
    renderStatements (endlessLoop 0 ++ endlessLoop 10) ⟨false⟩ =
      renderStatements (endlessLoop 0) ⟨false⟩ ++ renderStatements (endlessLoop 10) ⟨false⟩ ∧
    renderStatements (endlessLoop 10) ⟨false⟩ =
      "\t\tLabel_10:\n\t\tDone = true;\n\n\t\tgoto Label_10;\n\n" := by
  have htargets (start : UInt32) : jumpTargets (endlessLoop start) = [start] := by
    simp [jumpTargets, endlessLoop, collectTargets, jumpOffset?, insertOffset, Expr.children,
      Node.children]
  have hwalk (start : UInt32) :
      (scriptWalk (endlessLoop start)).map Expr.index =
        [start, start + 1, start + 2, start + 3] := by
    simp [scriptWalk, endlessLoop, Expr.walk_eq, Expr.children, Node.children]
  have hout (start other : UInt32) (h : start ∉ (scriptWalk (endlessLoop other)).map Expr.index) :
      keepsOutOf (endlessLoop start) (endlessLoop other) := by
    intro n hn x hx hindex
    rw [htargets, List.mem_singleton] at hn
    exact h (hn ▸ hindex ▸ List.mem_map_of_mem hx)
  have hab := hout 0 10 (by rw [hwalk]; decide)
  have hba := hout 10 0 (by rw [hwalk]; decide)
  have hlines : startsLine (renderStatements (endlessLoop 0) ⟨false⟩) := .inr (by cbv)
  exact ⟨hab, hba, hlines, renderStatements_append hab hba hlines, by cbv⟩

end Pseudocode
