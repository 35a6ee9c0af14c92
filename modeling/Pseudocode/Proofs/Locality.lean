import Mathlib.Data.List.Nodup
import Pseudocode.Proofs.LabelInsertion

/-! The state of a renderer over any run. A call only adds to it: text is
appended, labels that are written stay written, and the flag says whether the text
is at the start of a line. What a call does depends on little of that state,
namely on the labels that are still to be written at the nodes it enters and,
where there are margins, on the flag. Inside an expression there are none. -/

namespace Pseudocode

namespace Renderer

/-- Whether a renderer has gone on from another one: it has the same purpose, and
has taken nothing back. -/
structure Continues (r r' : Renderer) : Prop where
  targets : r'.targets = r.targets
  options : r'.options = r.options
  text : ∃ added, r'.text = r.text ++ added
  emitted : r.emitted ⊆ r'.emitted

/-- The state that a renderer is in between any two calls. -/
structure Sound (r : Renderer) : Prop where
  settled : r.atLineStart = true ↔ startsLine r.text
  wanted : r.emitted ⊆ r.targets
  once : r.emitted.Nodup

theorem continues_foldl_put (r : Renderer) (ps : List Piece) : r.Continues (ps.foldl put r) where
  targets := r.foldl_put_targets ps
  options := r.foldl_put_options ps
  text := ⟨_, r.foldl_put_text ps⟩
  emitted := by
    rw [foldl_put_emitted]
    exact List.subset_append_right _ _

theorem sound_new (targets : List UInt32) (o : RenderOptions) : Sound { targets, options := o } :=
  ⟨settled_new targets o, List.nil_subset _, List.nodup_nil⟩

theorem Sound.put {r : Renderer} (h : r.Sound) (p : Piece) : (r.put p).Sound := by
  have hemitted : (r.put p).emitted = (labelledOffsets (r.events p)).reverse ++ r.emitted :=
    r.put_emitted p
  rw [labelledOffsets_events] at hemitted
  refine ⟨Settled.put h.settled p, ?_, ?_⟩
  · rw [hemitted, put_targets]
    intro n hn
    rcases List.mem_append.mp hn with hn | hn
    · have hwants := (List.mem_filter.mp (List.mem_reverse.mp hn)).2
      exact ((r.wants_iff n).mp hwants).1
    · exact h.wanted hn
  · rw [hemitted]
    refine List.Nodup.append ?_ h.once ?_
    · refine List.nodup_reverse.mpr (List.Nodup.filter _ ?_)
      cases p.entered? <;> simp
    · intro n hn hmem
      have hwants := (List.mem_filter.mp (List.mem_reverse.mp hn)).2
      exact ((r.wants_iff n).mp hwants).2 hmem

theorem Sound.foldl_put {r : Renderer} (h : r.Sound) (ps : List Piece) :
    (ps.foldl Renderer.put r).Sound := by
  induction ps generalizing r with
  | nil => exact h
  | cons p ps ih => exact ih (h.put p)

def renderCalls (r : Renderer) (calls : List (Expr × RenderMode)) : Renderer :=
  calls.foldl (fun r call => r.render call.1 call.2) r

theorem renderCalls_concat (r : Renderer) (calls : List (Expr × RenderMode)) (e : Expr)
    (mode : RenderMode) :
    r.renderCalls (calls ++ [(e, mode)]) = (r.renderCalls calls).render e mode := by
  simp [renderCalls]

theorem Sound.renderCalls {r : Renderer} (h : r.Sound) (calls : List (Expr × RenderMode)) :
    (r.renderCalls calls).Sound := by
  induction calls generalizing r with
  | nil => exact h
  | cons call calls ih => exact ih (h.foldl_put _)

/-- The flag behind a piece, read off the text that the piece adds. -/
theorem atLineStart_put_eq (r : Renderer) (p : Piece) :
    (r.put p).atLineStart =
      if eventsText (r.events p) = "" then r.atLineStart
        else endsLine (eventsText (r.events p)) := by
  have hwrite (r : Renderer) (s : String) :
      (r.write s).atLineStart = if s = "" then r.atLineStart else endsLine s := by
    by_cases hs : s = ""
    · simp [write, hs]
    · simp [hs, atLineStart_write hs]
  cases p with
  | text s => simp [put, events, eventsText, Event.text, hwrite]
  | enter n mode =>
    cases hw : r.wants n <;> simp [put, emitLabel_eq, events, hw, eventsText, Event.text, hwrite]
  | margin =>
    cases hf : r.atLineStart <;> simp [put, events, hf, eventsText, Event.text, hwrite]

/-- Two renderers do the same if they have the same labels to write where nodes
are entered, and their flags agree or are not asked. -/
theorem log_congr {ps : List Piece} {r s : Renderer}
    (hwants : ∀ n ∈ (ps.filterMap Piece.entered?).map Prod.fst, r.wants n = s.wants n)
    (hflag : .margin ∈ ps → r.atLineStart = s.atLineStart) : r.log ps = s.log ps := by
  induction ps generalizing r s with
  | nil => rfl
  | cons p ps ih =>
    have hevents : r.events p = s.events p := by
      cases p with
      | text t => rfl
      | enter n mode => rw [events, events, hwants n (by simp [Piece.entered?])]
      | margin => rw [events, events, hflag List.mem_cons_self]
    have hrest : (r.put p).log ps = (s.put p).log ps := by
      refine ih (fun n hn => ?_) fun hm => ?_
      · have hn' : n ∈ ((p :: ps).filterMap Piece.entered?).map Prod.fst := by
          rw [List.filterMap_cons]
          cases p.entered? with
          | none => exact hn
          | some x => exact List.mem_cons_of_mem _ hn
        rw [Bool.eq_iff_iff, wants_put, wants_put, hwants n hn']
      · rw [atLineStart_put_eq, atLineStart_put_eq, hevents, hflag (List.mem_cons_of_mem _ hm)]
    rw [log, log, hevents, hrest]

end Renderer

/-- Inside an expression only the labels count that are still to be written. -/
theorem log_expression {r s : Renderer} {o : RenderOptions} (e : Expr)
    (hwants : ∀ n, r.wants n = s.wants n) :
    r.log (e.pieces o .expression) = s.log (e.pieces o .expression) :=
  Renderer.log_congr (fun n _ => hwants n) fun hm => absurd hm (e.margin_not_mem_pieces o rfl)

theorem renderExpression_eq (e : Expr) (targets : List UInt32) (mode : RenderMode)
    (o : RenderOptions) :
    renderExpression e targets mode o =
      eventsText (Renderer.log { targets, options := o } (e.pieces o mode)) := by
  simp [renderExpression, Renderer.render, Renderer.foldl_put_text]

theorem renderStatements_eq (script : List Expr) (o : RenderOptions) :
    renderStatements script o =
      eventsText
        (Renderer.log { targets := jumpTargets script, options := o } (scriptPieces o script)) := by
  simp [renderStatements, Renderer.renderAll_eq, Renderer.foldl_put_text]

namespace Renderer

/-- However often a renderer is called, each call only adds to its text and to its
labels, its flag tells whether the text is at the start of a line, and its labels
are targets. What the next call adds is the same for any two renderers that have
the same targets, options and labels, for a statement if their flags agree too. -/
theorem renderCalls_extends (targets : List UInt32) (o : RenderOptions)
    (calls : List (Expr × RenderMode)) (e : Expr) (mode : RenderMode) :
    (renderCalls { targets, options := o } calls).Sound ∧
    (renderCalls { targets, options := o } calls).Continues
      (renderCalls { targets, options := o } (calls ++ [(e, mode)])) ∧
    (renderCalls { targets, options := o } (calls ++ [(e, mode)])).Sound ∧
    ∀ r s : Renderer, (∀ n, n ∈ r.targets ↔ n ∈ s.targets) → r.options = s.options →
      (∀ n, n ∈ r.emitted ↔ n ∈ s.emitted) → (mode = .statement → r.atLineStart = s.atLineStart) →
      ∃ added, (r.render e mode).text = r.text ++ added ∧ (s.render e mode).text = s.text ++ added ∧
        ∀ n, n ∈ (r.render e mode).emitted ↔ n ∈ (s.render e mode).emitted := by
  refine ⟨(sound_new targets o).renderCalls calls, ?_, (sound_new targets o).renderCalls _, ?_⟩
  · rw [renderCalls_concat]
    exact continues_foldl_put _ _
  · intro r s htargets hoptions hemitted hflag
    have hwants (n : UInt32) : r.wants n = s.wants n := by
      rw [Bool.eq_iff_iff, wants_iff, wants_iff, htargets, hemitted]
    have hlog : r.log (e.pieces r.options mode) = s.log (e.pieces s.options mode) := by
      rw [hoptions]
      cases mode with
      | statement => exact log_congr (fun n _ => hwants n) fun _ => hflag rfl
      | expression => exact log_expression e hwants
    refine ⟨eventsText (r.log (e.pieces r.options mode)), foldl_put_text _ _, ?_, fun n => ?_⟩
    · rw [hlog]
      exact foldl_put_text _ _
    · simp only [render, foldl_put_emitted, hlog, List.mem_append, hemitted]

theorem renderCalls_extends_operand :
    let begun : Renderer :=
      { targets := [5], options := ⟨false⟩, text := "\t\tDone = ", atLineStart := false }
    let fresh : Renderer := { targets := [5, 5], options := ⟨false⟩ }
    (begun.render ⟨5, .atom .trueConst⟩ .expression).text = "\t\tDone = Label_5:\ntrue" ∧
    ∃ added, (begun.render ⟨5, .atom .trueConst⟩ .expression).text = begun.text ++ added ∧
      (fresh.render ⟨5, .atom .trueConst⟩ .expression).text = added ∧
      ∀ n, n ∈ (begun.render ⟨5, .atom .trueConst⟩ .expression).emitted ↔
        n ∈ (fresh.render ⟨5, .atom .trueConst⟩ .expression).emitted := by
  intro begun fresh
  obtain ⟨-, -, -, hlocal⟩ := renderCalls_extends [5] ⟨false⟩ [] ⟨5, .atom .trueConst⟩ .expression
  obtain ⟨added, hbegun, hfresh, hemitted⟩ :=
    hlocal begun fresh (by simp [begun, fresh]) rfl (fun _ => Iff.rfl) nofun
  exact ⟨by cbv, added, hbegun, by simpa [fresh] using hfresh, hemitted⟩

end Renderer

end Pseudocode
