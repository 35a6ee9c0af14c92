import Pseudocode.Proofs.Navigation

/-! Every label that is written, and where a search finds it. A label is written
where its node is entered, in whatever line stands there. The search takes whole
lines only, so that a label is found if nothing but blanks is in front of it on
its line. Labels of statements have a line of their own as long as the statements
before them end theirs. -/

namespace Pseudocode

namespace Renderer

/-- The label of an emitted offset is written where a node with it is first
entered, and not again. -/
theorem emitted_label {r : Renderer} (hr : r.emitted = []) {ps : List Piece} {n : UInt32}
    (h : n ∈ (ps.foldl put r).emitted) :
    ∃ before mode after, r.log ps = before ++ .enter n mode :: .label n mode :: after ∧
      n ∉ enteredOffsets before ∧ n ∉ labelledOffsets after := by
  rw [foldl_put_emitted, hr, List.append_nil, List.mem_reverse] at h
  obtain ⟨event, hevent, hn⟩ := List.mem_filterMap.mp h
  obtain ⟨before, after, hlog⟩ := List.append_of_mem hevent
  cases event with
  | write s => cases hn
  | enter offset mode => cases hn
  | label offset mode =>
    obtain rfl : offset = n := by simpa [Event.labelled?] using hn
    have hone : (labelledOffsets (r.log ps)).count offset ≤ 1 := by
      rw [count_labelledOffsets]
      split <;> omega
    have hlabels :
      labelledOffsets (.label offset mode :: after) = offset :: labelledOffsets after := rfl
    rw [hlog, labelledOffsets_append, List.count_append, hlabels, List.count_cons_self] at hone
    have hafter : offset ∉ labelledOffsets after := List.count_eq_zero.mp (by omega)
    obtain ⟨-, before', rfl, hbefore⟩ := label_follows_first hlog
    exact ⟨before', mode, after, by simpa using hlog, hbefore, hafter⟩

/-- No run begins with a label, for its node is entered first. -/
theorem log_ne_label (r : Renderer) (ps : List Piece) (n : UInt32) (mode : RenderMode)
    (after : List Event) : r.log ps ≠ .label n mode :: after := by
  intro hlog
  have hstart : r.log ps = [] ++ .label n mode :: after := hlog
  obtain ⟨-, before', hnil, -⟩ := label_follows_first hstart
  simp at hnil

/-- A label that is written by the second of two runs does not begin it, so the
first run is over in front of it. -/
theorem label_of_append {front : List Event} {r : Renderer} {ps : List Piece}
    {before after : List Event} {n : UInt32} {mode : RenderMode}
    (h : front ++ r.log ps = before ++ .label n mode :: after) :
    (∃ later, before = front ++ later ∧ r.log ps = later ++ .label n mode :: after) ∨
      ∃ rest, front = before ++ .label n mode :: rest := by
  rcases List.append_eq_append_iff.mp h with ⟨later, hbefore, hrest⟩ | ⟨own, hown, hlabel⟩
  · exact .inl ⟨later, hbefore, hrest⟩
  · cases own with
    | nil => exact absurd hlabel.symm (r.log_ne_label ps n mode after)
    | cons event own =>
      obtain ⟨rfl, -⟩ := List.cons.inj hlabel
      exact .inr ⟨own, hown⟩

theorem enter_of_label {r : Renderer} {ps : List Piece} {n : UInt32} {mode : RenderMode}
    (h : .label n mode ∈ r.log ps) : .enter n mode ∈ ps := by
  obtain ⟨before, after, hlog⟩ := List.append_of_mem h
  obtain ⟨-, before', rfl, -⟩ := label_follows_first hlog
  have hentered : (n, mode) ∈ (r.log ps).filterMap Event.entered? := by simp [hlog, Event.entered?]
  rw [entered_log] at hentered
  obtain ⟨p, hp, hn⟩ := List.mem_filterMap.mp hentered
  cases p with
  | text s => cases hn
  | margin => cases hn
  | enter offset mode' =>
    obtain ⟨rfl, rfl⟩ : offset = n ∧ mode' = mode := by simpa [Piece.entered?] using hn
    exact hp

end Renderer

theorem Expr.mode_of_enter {o : RenderOptions} {mode m : RenderMode} (hm : mode = .expression)
    {e : Expr} {n : UInt32} (h : .enter n m ∈ e.pieces o mode) : m = .expression := by
  induction mode, e using Expr.render_induction (o := o) with
  | h mode e ih =>
    rw [e.pieces_eq] at h
    rcases List.mem_cons.mp h with h | h
    · obtain ⟨-, rfl⟩ : n = e.index ∧ m = mode := by simpa using h
      exact hm
    · obtain ⟨p, hp, hn⟩ := List.mem_flatMap.mp h
      cases p with
      | text s => simp [Part.pieces] at hn
      | margin => simp [Part.pieces] at hn
      | operand m' c =>
        have hm' : m' = .expression := by
          rcases Node.operand_mode hp with hm' | ⟨hm', -, -⟩
          · exact hm'
          · exact hm'.trans hm
        exact ih m' c hp hm' hn

theorem wholeLines_labelLine (n : UInt32) (mode : RenderMode) :
    wholeLines (labelLine n mode).toList :=
  wholeLines_of_startsLine (.inr (Renderer.labelLine_ends n mode))

theorem Renderer.wholeLines_put_enter {r : Renderer} (hr : wholeLines r.text.toList) (n : UInt32)
    (mode : RenderMode) : wholeLines (r.put (.enter n mode)).text.toList := by
  rw [put_text, String.toList_append]
  refine wholeLines_append hr ?_
  by_cases hw : r.wants n = true
  · simpa [events, hw, eventsText, Event.text] using wholeLines_labelLine n mode
  · simpa [events, hw, eventsText, Event.text] using wholeLines_nil

/-- In front of the label of a statement there are only lines, if there are in
front of the statement. -/
theorem Expr.wholeLines_before_label {o : RenderOptions} {mode : RenderMode}
    (hm : mode = .statement) {e : Expr} {r : Renderer} (hr : wholeLines r.text.toList)
    {before after : List Event} {n : UInt32}
    (h : r.log (e.pieces o mode) = before ++ .label n .statement :: after) :
    wholeLines (r.text ++ eventsText before).toList := by
  induction mode, e using Expr.render_induction (o := o) generalizing r before with
  | h mode e ih =>
    rw [e.pieces_eq, Renderer.log] at h
    rcases Renderer.label_of_append h with ⟨later, rfl, hrest⟩ | ⟨rest, hown⟩
    · have hlabel : .label n .statement ∈ (r.put (.enter e.index mode)).log
          ((e.node.layout o mode).flatMap (Part.pieces o)) := by simp [hrest]
      obtain ⟨p, hp, hn⟩ := List.mem_flatMap.mp (Renderer.enter_of_label hlabel)
      cases p with
      | text s => simp [Part.pieces] at hn
      | margin => simp [Part.pieces] at hn
      | operand m c =>
        rcases Node.operand_mode hp with hm' | ⟨rfl, -, hl⟩
        · cases c.mode_of_enter hm' hn
        · have hwhole := ih m c hp hm (Renderer.wholeLines_put_enter hr e.index m)
            (by simpa [hl, Part.pieces] using hrest)
          rwa [Renderer.put_text, String.append_assoc, ← eventsText_append] at hwhole
    · obtain ⟨-, rfl⟩ := Renderer.label_mem_events hown
      simpa [eventsText, Event.text] using hr

theorem wholeLines_before_label {script : List Expr} {o : RenderOptions}
    (h : ∀ e ∈ script, startsLine (renderExpression e [] .statement o)) {r : Renderer}
    (hsettled : r.Settled) (hr : r.atLineStart = true) {before after : List Event} {n : UInt32}
    (hlog : r.log (scriptPieces o script) = before ++ .label n .statement :: after) :
    wholeLines (r.text ++ eventsText before).toList := by
  induction script generalizing r before with
  | nil => simp [scriptPieces, Renderer.log] at hlog
  | cons e script ih =>
    have hpieces : scriptPieces o (e :: script) = e.pieces o .statement ++ scriptPieces o script :=
      rfl
    rw [hpieces, Renderer.log_append] at hlog
    rcases Renderer.label_of_append hlog with ⟨later, rfl, hrest⟩ | ⟨rest, hown⟩
    · have hwhole := ih (fun x hx => h x (List.mem_cons_of_mem _ hx)) (hsettled.foldl_put _)
        (Renderer.atLineStart_statement (h e List.mem_cons_self) hr) hrest
      rwa [Renderer.foldl_put_text, String.append_assoc, ← eventsText_append] at hwhole
    · exact e.wholeLines_before_label rfl (wholeLines_of_startsLine (hsettled.mp hr)) hown

theorem wholeLines_afterLast (s : List Char) :
    ∃ lines, s = lines ++ afterLast '\n' s ∧ wholeLines lines ∧ '\n' ∉ afterLast '\n' s := by
  refine ⟨s.rdropWhile (· ≠ '\n'), List.rdropWhile_append_rtakeWhile.symm, ?_, ?_⟩
  · intro c hc
    have hne : s.rdropWhile (· ≠ '\n') ≠ [] := by
      intro hnil
      rw [hnil] at hc
      cases hc
    have hlast := List.rdropWhile_last_not (· ≠ '\n') s hne
    rw [List.getLast?_eq_some_getLast hne, Option.mem_some_iff] at hc
    rw [← hc]
    simpa using hlast
  · intro hmem
    have hmem' := List.mem_rtakeWhile_imp hmem
    simp at hmem'

theorem labelLine_split (n : UInt32) (mode : RenderMode) :
    ∃ margin, labelLine n mode = margin ++ (labelName n ++ ":") ++ "\n" ∧
      ∀ c ∈ margin.toList, isBlank c ∧ c ≠ '\n' := by
  have htab : isBlank '\t' = true := by decide
  cases mode with
  | statement =>
    exact ⟨indentation, by simp [labelLine, String.ext_iff], by simp [indentation, htab]⟩
  | expression => exact ⟨"", by simp [labelLine, String.ext_iff], by simp⟩

/-- A label behind blanks on its line is found there, or before it. -/
theorem findLabelLine_begun {before : String} (h : ∀ c ∈ afterLast '\n' before.toList, isBlank c)
    (mode : RenderMode) (rest : String) (n : UInt32) :
    ∃ k ≤ before.toList.count '\n', findLabelLine (before ++ labelLine n mode ++ rest) n =
      some k := by
  obtain ⟨lines, hsplit, hlines, hbegun⟩ := wholeLines_afterLast before.toList
  obtain ⟨margin, hlabel, hmargin⟩ := labelLine_split n mode
  let line := afterLast '\n' before.toList ++ margin.toList ++ (labelName n ++ ":").toList
  have hline : '\n' ∉ line := by
    have hname := newline_not_mem_labelName n
    have hnot : '\n' ∉ margin.toList := fun hc => (hmargin _ hc).2 rfl
    simp [line, hbegun, hnot, hname]
  have htrim : trimBlanks line = (labelName n ++ ":").toList := by
    refine trimBlanks_label (fun c hc => ?_) n
    rcases List.mem_append.mp hc with hc | hc
    · exact h c hc
    · exact (hmargin c hc).1
  have htext :
      (before ++ labelLine n mode ++ rest).toList = lines ++ (line ++ '\n' :: rest.toList) := by
    rw [hlabel, String.toList_append, String.toList_append, hsplit]
    simp [line]
  have hcount : before.toList.count '\n' = (textLines lines).length := by
    rw [hsplit, List.count_append, List.count_eq_zero.mpr hbegun, length_textLines hlines,
      Nat.add_zero]
  rw [findLabelLine, htext, textLines_append hlines, textLines_line hline,
    List.findIdx?_append, hcount]
  cases hfound :
      (textLines lines).findIdx? fun line => trimBlanks line = (labelName n ++ ":").toList with
  | none => exact ⟨(textLines lines).length, Nat.le_refl _, by simp [List.findIdx?_cons, htrim]⟩
  | some k =>
    obtain ⟨hlt, -⟩ := List.findIdx?_eq_some_iff_getElem.mp hfound
    exact ⟨k, Nat.le_of_lt hlt, by simp⟩

/-- A label that is emitted is written once, where its offset is first entered. It
is found if the line it stands on is blank before it, which is so for labels of
statements as long as all statements end their lines. -/
theorem findLabelLine_emitted {script : List Expr} {o : RenderOptions} {n : UInt32}
    (h : n ∈ (Renderer.renderAll { targets := jumpTargets script, options := o } script).emitted) :
    ∃ before mode after, scriptLog o script (jumpTargets script) =
      before ++ .enter n mode :: .label n mode :: after ∧
      n ∉ enteredOffsets before ∧ n ∉ labelledOffsets after ∧
      renderStatements script o = eventsText before ++ labelLine n mode ++ eventsText after ∧
      ((∀ c ∈ afterLast '\n' (eventsText before).toList, isBlank c) ∨
          mode = .statement ∧ (∀ e ∈ script, startsLine (renderExpression e [] .statement o)) →
        ∃ k ≤ (eventsText before).toList.count '\n', findLabelLine (renderStatements script o) n =
          some k) := by
  rw [Renderer.renderAll_eq] at h
  obtain ⟨before, mode, after, hlog, hbefore, hafter⟩ := Renderer.emitted_label rfl h
  have htext :
      renderStatements script o = eventsText before ++ labelLine n mode ++ eventsText after := by
    rw [renderStatements, Renderer.renderAll_eq, Renderer.foldl_put_text, hlog, eventsText_append]
    simp [eventsText, Event.text, String.append_assoc]
  refine ⟨before, mode, after, hlog, hbefore, hafter, htext, fun hline => ?_⟩
  rw [htext]
  refine findLabelLine_begun ?_ mode _ n
  rcases hline with hblank | ⟨rfl, hstatements⟩
  · exact hblank
  · have hlabel : scriptLog o script (jumpTargets script) =
        (before ++ [.enter n .statement]) ++ .label n .statement :: after := by
      simpa [scriptLog] using hlog
    have hwhole := wholeLines_before_label hstatements (Renderer.settled_new _ o) rfl hlabel
    have hlines : wholeLines (eventsText before).toList := by
      simpa [eventsText_append, eventsText, Event.text] using hwhole
    simp [afterLast_of_wholeLines hlines]

def jumpToReturn : List Expr := [⟨0, .jump 5⟩, ⟨5, .ret ⟨6, .atom .nothing⟩⟩]

theorem findLabelLine_emitted_return :
    5 ∈ (Renderer.renderAll { targets := jumpTargets jumpToReturn, options := ⟨false⟩ }
      jumpToReturn).emitted ∧
    ∃ k, findLabelLine (renderStatements jumpToReturn ⟨false⟩) 5 = some k := by
  have hpieces : scriptPieces ⟨false⟩ jumpToReturn = [.enter 0 .statement, .text indentation,
      .text ("goto " ++ labelName 5), .text terminator, .enter 5 .statement, .text indentation,
      .text "return", .text "", .enter 6 .expression, .text "", .text terminator] := by
    simp [scriptPieces, jumpToReturn, Expr.pieces_eq, Node.layout, RenderMode.wrap,
      RenderMode.inStatement, Part.pieces, Node.isNothing, Atom.text]
  have htargets : jumpTargets jumpToReturn = [5] := by
    simp [jumpTargets, jumpToReturn, collectTargets, jumpOffset?, insertOffset, Expr.children,
      Node.children]
  have hemitted :
      5 ∈ (Renderer.renderAll { targets := jumpTargets jumpToReturn, options := ⟨false⟩ }
        jumpToReturn).emitted := by
    rw [Renderer.renderAll_eq, hpieces, Renderer.foldl_put_emitted, htargets]
    decide +kernel
  have hlines : ∀ e ∈ jumpToReturn, startsLine (renderExpression e [] .statement ⟨false⟩) := by
    simp only [jumpToReturn, List.forall_mem_cons]
    exact ⟨.inr (by cbv), .inr (by cbv), by simp⟩
  obtain ⟨before, mode, after, hlog, -, -, -, hfound⟩ := findLabelLine_emitted hemitted
  have hmode : mode = .statement := by
    have hlabel : .label 5 mode ∈ scriptLog ⟨false⟩ jumpToReturn (jumpTargets jumpToReturn) := by
      simp [hlog]
    have henter := Renderer.enter_of_label hlabel
    simpa [hpieces] using henter
  obtain ⟨k, -, hk⟩ := hfound (.inr ⟨hmode, hlines⟩)
  exact ⟨hemitted, k, hk⟩

/-- The label of an operand stands behind the beginning of its statement, where no
search finds it. -/
theorem findLabelLine_operand :
    5 ∈ (Renderer.renderAll { targets := jumpTargets jumpIntoOperand, options := ⟨false⟩ }
      jumpIntoOperand).emitted ∧
    renderStatements jumpIntoOperand ⟨false⟩ =
      "\t\tgoto Label_5;\n\n\t\tDone = Label_5:\ntrue;\n\n" ∧
    findLabelLine (renderStatements jumpIntoOperand ⟨false⟩) 5 = none := by
  have htext : renderStatements jumpIntoOperand ⟨false⟩ =
      "\t\tgoto Label_5;\n\n\t\tDone = Label_5:\ntrue;\n\n" := by cbv
  have hemitted : (Renderer.renderAll { targets := jumpTargets jumpIntoOperand, options := ⟨false⟩ }
      jumpIntoOperand).emitted = [5] := by cbv
  refine ⟨by simp [hemitted], htext, ?_⟩
  rw [htext]
  decide +kernel

end Pseudocode
