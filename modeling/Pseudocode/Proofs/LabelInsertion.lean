import Mathlib.Data.List.Basic
import Pseudocode.Proofs.UnlabelledText

/-! Labels are inserted into the text of a script and change nothing else in it.
Each is written once, where a node with its offset is first entered. -/

namespace Pseudocode

def Piece.entered? : Piece → Option (UInt32 × RenderMode)
  | .enter offset mode => some (offset, mode)
  | _ => none

def enteredOffsets (es : List Event) : List UInt32 := (es.filterMap Event.entered?).map Prod.fst

def labelledOffsets (es : List Event) : List UInt32 := es.filterMap Event.labelled?

theorem enteredOffsets_append (es fs : List Event) :
    enteredOffsets (es ++ fs) = enteredOffsets es ++ enteredOffsets fs := by
  simp [enteredOffsets]

theorem labelledOffsets_append (es fs : List Event) :
    labelledOffsets (es ++ fs) = labelledOffsets es ++ labelledOffsets fs := by
  simp [labelledOffsets]

namespace Renderer

theorem foldl_put_emitted (r : Renderer) (ps : List Piece) :
    (ps.foldl put r).emitted = (labelledOffsets (r.log ps)).reverse ++ r.emitted := by
  induction ps generalizing r with
  | nil => simp [log, labelledOffsets]
  | cons p ps ih =>
    rw [List.foldl_cons, ih, put_emitted, log, labelledOffsets_append, List.reverse_append,
      List.append_assoc]
    rfl

theorem wants_iff (r : Renderer) (n : UInt32) :
    r.wants n = true ↔ n ∈ r.targets ∧ n ∉ r.emitted := by
  simp [wants]

theorem wants_put (r : Renderer) (p : Piece) (n : UInt32) :
    (r.put p).wants n = true ↔ r.wants n = true ∧ n ∉ (p.entered?.map Prod.fst).toList := by
  rw [wants_iff, wants_iff, put_targets, put_emitted]
  cases p with
  | text t => simp [events, Event.labelled?, Piece.entered?]
  | margin => cases h : r.atLineStart <;> simp [events, h, Event.labelled?, Piece.entered?]
  | enter offset mode =>
    have hw := r.wants_iff offset
    by_cases hn : n = offset
    · subst hn
      cases h : r.wants n <;> simp_all [events, Event.labelled?, Piece.entered?]
    · cases h : r.wants offset <;>
        simp [events, h, List.filterMap_cons, Event.labelled?, Piece.entered?, hn]

theorem wants_foldl_put (r : Renderer) (ps : List Piece) (n : UInt32) :
    (ps.foldl put r).wants n = true ↔ r.wants n = true ∧
      n ∉ (ps.filterMap Piece.entered?).map Prod.fst := by
  induction ps generalizing r with
  | nil => simp
  | cons p ps ih =>
    rw [List.foldl_cons, ih, wants_put, List.filterMap_cons]
    cases p.entered? <;> simp [and_assoc]

theorem entered_log (r : Renderer) (ps : List Piece) :
    (r.log ps).filterMap Event.entered? = ps.filterMap Piece.entered? := by
  induction ps generalizing r with
  | nil => rfl
  | cons p ps ih =>
    simp only [log, List.filterMap_append, ih]
    cases p with
    | text t => rfl
    | enter offset mode => simp only [events]; split <;> rfl
    | margin => simp only [events]; split <;> rfl

theorem enteredOffsets_events (r : Renderer) (p : Piece) :
    enteredOffsets (r.events p) = (p.entered?.map Prod.fst).toList := by
  cases p with
  | text t => rfl
  | enter offset mode => simp only [events]; split <;> rfl
  | margin => simp only [events]; split <;> rfl

theorem labelledOffsets_events (r : Renderer) (p : Piece) :
    labelledOffsets (r.events p) = (p.entered?.map Prod.fst).toList.filter r.wants := by
  cases p with
  | text t => rfl
  | enter offset mode =>
    cases hw : r.wants offset <;>
      simp [events, hw, labelledOffsets, List.filterMap_cons, Event.labelled?, Piece.entered?]
  | margin => simp only [events]; split <;> rfl

theorem labelledOffsets_sublist (r : Renderer) (ps : List Piece) :
    (labelledOffsets (r.log ps)).Sublist (enteredOffsets (r.log ps)) := by
  induction ps generalizing r with
  | nil => exact .slnil
  | cons p ps ih =>
    simp only [log, labelledOffsets_append, enteredOffsets_append, labelledOffsets_events,
      enteredOffsets_events]
    exact List.filter_sublist.append (ih (r.put p))

/-- A wanted label is written once if its node is entered, and no other is written. -/
theorem count_labelledOffsets (r : Renderer) (ps : List Piece) (n : UInt32) :
    (labelledOffsets (r.log ps)).count n = if r.wants n ∧ n ∈ enteredOffsets (r.log ps) then 1
      else 0 := by
  induction ps generalizing r with
  | nil => simp [log, labelledOffsets, enteredOffsets]
  | cons p ps ih =>
    simp only [log, labelledOffsets_append, enteredOffsets_append, List.count_append, ih, wants_put,
      List.mem_append, labelledOffsets_events, enteredOffsets_events]
    cases p.entered? with
    | none => simp
    | some x =>
      by_cases hn : n = x.1
      · subst hn
        cases hw : r.wants x.1 <;> simp [hw]
      · cases hw : r.wants x.1 <;> simp [hw, hn, Ne.symm hn]

theorem label_mem_events {r : Renderer} {p : Piece} {before after : List Event} {n : UInt32}
    {mode : RenderMode} (h : r.events p = before ++ .label n mode :: after) :
    r.wants n = true ∧ before = [.enter n mode] := by
  cases p with
  | text t =>
    have hm : Event.label n mode ∈ r.events (.text t) := by simp [h]
    simp [events] at hm
  | margin =>
    have hm : Event.label n mode ∈ r.events .margin := by simp [h]
    simp [events] at hm
  | enter offset mode' =>
    cases hw : r.wants offset with
    | false =>
      have hm : Event.label n mode ∈ r.events (.enter offset mode') := by simp [h]
      simp [events, hw] at hm
    | true =>
      simp only [events, hw, if_true] at h
      cases before with
      | nil => simp at h
      | cons event before =>
        cases before with
        | nil =>
          obtain ⟨rfl, ⟨rfl, rfl⟩, _⟩ := by simpa using h
          exact ⟨hw, rfl⟩
        | cons event' before => simp at h

/-- A label stands directly behind the first node with its offset. -/
theorem label_follows_first {r : Renderer} {ps : List Piece} {before after : List Event}
    {n : UInt32} {mode : RenderMode} (h : r.log ps = before ++ .label n mode :: after) :
    r.wants n = true ∧ ∃ before', before = before' ++ [.enter n mode] ∧
      n ∉ enteredOffsets before' := by
  induction ps generalizing r before with
  | nil => simp [log] at h
  | cons p ps ih =>
    rcases List.append_eq_append_iff.mp h with ⟨later, rfl, hrest⟩ | ⟨own, hown, hlabel⟩
    · obtain ⟨hw, before', rfl, hno⟩ := ih hrest
      rw [wants_put, ← enteredOffsets_events r] at hw
      refine ⟨hw.1, r.events p ++ before', by simp, ?_⟩
      simp [enteredOffsets_append, hw.2, hno]
    · cases own with
      | nil =>
        obtain ⟨_, before', hnil, _⟩ := @ih (r.put p) [] hlabel.symm
        simp at hnil
      | cons event own =>
        obtain ⟨rfl, _⟩ := List.cons.inj hlabel
        obtain ⟨hw, rfl⟩ := label_mem_events hown
        exact ⟨hw, [], rfl, by simp [enteredOffsets]⟩

end Renderer

/-- How the log of a run over some targets differs from the log over none. -/
structure LabelsInserted (targets : List UInt32) (plain labelled : List Event) : Prop where
  rest_kept : unlabelled labelled = plain
  written_once : ∀ n, (labelledOffsets labelled).count n =
    if n ∈ targets ∧ n ∈ enteredOffsets plain then 1 else 0
  at_first_entry : ∀ before n mode after, labelled = before ++ .label n mode :: after →
    ∃ before', before = before' ++ [.enter n mode] ∧ n ∉ enteredOffsets before'

/-- What is put together from the parts of a node depends on what is made of its
operands. -/
theorem flatMap_parts_congr {α : Type} {f g : Part → List α} {parts : List Part}
    (htext : ∀ s, f (.text s) = g (.text s)) (hmargin : f .margin = g .margin)
    (h : ∀ m c, .operand m c ∈ parts → f (.operand m c) = g (.operand m c)) :
    parts.flatMap f = parts.flatMap g := by
  refine List.flatMap_congr fun p hp => ?_
  cases p with
  | text s => exact htext s
  | margin => exact hmargin
  | operand m c => exact h m c hp

theorem entered_pieces (o : RenderOptions) (mode : RenderMode) (e : Expr) :
    (e.pieces o mode).filterMap Piece.entered? = (e.entered o mode).map fun x =>
      (x.1.index, x.2) := by
  induction mode, e using Expr.render_induction (o := o) with
  | h mode e ih =>
    rw [e.pieces_eq, e.entered_eq, List.filterMap_cons, List.map_cons]
    simp only [Piece.entered?, List.filterMap_flatMap, List.map_flatMap]
    congr 1
    exact flatMap_parts_congr (fun _ => rfl) rfl ih

theorem entered_scriptPieces (o : RenderOptions) (script : List Expr) :
    (scriptPieces o script).filterMap Piece.entered? =
      (scriptEntered o script).map fun x => (x.1.index, x.2) := by
  simp only [scriptPieces, scriptEntered, List.filterMap_flatMap, List.map_flatMap, entered_pieces]

theorem mem_walk_of_entered {o : RenderOptions} {script : List Expr} {n : UInt32}
    (h : n ∈ ((scriptPieces o script).filterMap Piece.entered?).map Prod.fst) :
    ∃ x ∈ scriptWalk script, x.index = n := by
  rw [entered_scriptPieces, List.map_map, List.mem_map] at h
  obtain ⟨x, hx, rfl⟩ := h
  obtain ⟨e, he, hx⟩ := List.mem_flatMap.mp hx
  exact ⟨x.1, List.mem_flatMap.mpr ⟨e, he, Expr.mem_walk_of_entered hx⟩, rfl⟩

def scriptLog (o : RenderOptions) (script : List Expr) (targets : List UInt32) : List Event :=
  Renderer.log { targets, options := o } (scriptPieces o script)

/-- Rendering a script of statements that end their lines over some targets is
rendering it over none and inserting label lines: one for each target at which a
node is entered, where that happens first. Nodes are entered in the order of the
walk unless a switch swaps its branches. -/
theorem labels_inserted {script : List Expr} {o : RenderOptions}
    (h : ∀ e ∈ script, startsLine (renderExpression e [] .statement o)) (targets : List UInt32) :
    (Renderer.renderAll { targets, options := o } script).text =
      eventsText (scriptLog o script targets) ∧
    (Renderer.renderAll { targets := [], options := o } script).text =
      eventsText (scriptLog o script []) ∧
    LabelsInserted targets (scriptLog o script []) (scriptLog o script targets) ∧
    (scriptLog o script targets).filterMap Event.entered? =
      (scriptEntered o script).map (fun x => (x.1.index, x.2)) ∧
    ((∀ x ∈ scriptWalk script, ¬ x.node.swapsBranches) →
      ((scriptEntered o script).map Prod.fst).Sublist (scriptWalk script) ∧
      (labelledOffsets (scriptLog o script targets)).Sublist
        ((scriptWalk script).map Expr.index)) := by
  have htext (targets : List UInt32) :
      (Renderer.renderAll { targets, options := o } script).text =
        eventsText (scriptLog o script targets) := by
    simp [Renderer.renderAll_eq, Renderer.foldl_put_text, scriptLog]
  have hentered (targets : List UInt32) : (scriptLog o script targets).filterMap Event.entered? =
      (scriptEntered o script).map fun x => (x.1.index, x.2) := by
    rw [scriptLog, Renderer.entered_log, entered_scriptPieces]
  have hplain : unlabelled (scriptLog o script targets) = scriptLog o script [] := by
    rw [scriptLog, Renderer.unlabelled_log_script h (s := { targets := [], options := o }) rfl rfl]
    exact Renderer.unlabelled_log_of_no_targets rfl _
  have hoffsets :
      enteredOffsets (scriptLog o script targets) = enteredOffsets (scriptLog o script []) := by
    simp only [enteredOffsets, hentered]
  refine ⟨htext targets, htext [], ⟨hplain, ?_, ?_⟩, hentered targets, fun hswap => ⟨?_, ?_⟩⟩
  · intro n
    rw [← hoffsets, scriptLog, Renderer.count_labelledOffsets]
    simp [Renderer.wants]
  · intro before n mode after hlog
    exact (Renderer.label_follows_first hlog).2
  · exact scriptEntered_sublist_walk o script hswap
  · have hwalk := (scriptEntered_sublist_walk o script hswap).map Expr.index
    have hindices : enteredOffsets (scriptLog o script targets) =
        ((scriptEntered o script).map Prod.fst).map Expr.index := by
      simp [enteredOffsets, hentered, Function.comp_def]
    exact (hindices ▸
      Renderer.labelledOffsets_sublist _ _ : (labelledOffsets _).Sublist _).trans hwalk

def jumpIntoOperand : List Expr := [
  ⟨0, .jump 5⟩,
  ⟨3, .letKind .bool ⟨4, .var .stackLocal (.legacy "Done")⟩ ⟨5, .atom .trueConst⟩⟩]

theorem labels_inserted_in_operand :
    (∀ e ∈ jumpIntoOperand, startsLine (renderExpression e [] .statement ⟨false⟩)) ∧
    LabelsInserted [5] (scriptLog ⟨false⟩ jumpIntoOperand [])
      (scriptLog ⟨false⟩ jumpIntoOperand [5]) ∧
    (Renderer.renderAll { targets := [5], options := ⟨false⟩ } jumpIntoOperand).text =
      "\t\tgoto Label_5;\n\n\t\tDone = Label_5:\ntrue;\n\n" := by
  have h : ∀ e ∈ jumpIntoOperand, startsLine (renderExpression e [] .statement ⟨false⟩) := by
    simp only [jumpIntoOperand, List.forall_mem_cons]
    exact ⟨.inr (by cbv), .inr (by cbv), by simp⟩
  exact ⟨h, (labels_inserted h [5]).2.2.1, by cbv⟩

end Pseudocode
