import Pseudocode.Proofs.LabelPlaces

/-! Finding the label of a statement in rendered text. The search reads nothing
but the text, so the text before the label must have no line that looks like it. -/

namespace Pseudocode

def piecesApart (n : UInt32) (ps : List Piece) : Prop :=
  ∀ r : Renderer, keepsApart n (eventsText (r.log ps)).toList

theorem piecesApart_append {n : UInt32} {ps qs : List Piece} (hp : piecesApart n ps)
    (hq : piecesApart n qs) : piecesApart n (ps ++ qs) := by
  intro r
  rw [Renderer.log_append, eventsText_append, String.toList_append]
  exact keepsApart_append (hp r) (hq (ps.foldl Renderer.put r))

theorem piecesApart_cons {n : UInt32} {p : Piece} {ps : List Piece} (hp : piecesApart n [p])
    (hps : piecesApart n ps) : piecesApart n (p :: ps) := by
  have happend := piecesApart_append hp hps
  rwa [List.singleton_append] at happend

theorem piecesApart_flatMap {α : Type} {n : UInt32} {f : α → List Piece} {xs : List α}
    (h : ∀ x ∈ xs, piecesApart n (f x)) : piecesApart n (xs.flatMap f) := by
  induction xs with
  | nil => exact fun r => by simpa [Renderer.log] using keepsApart_nil n
  | cons x xs ih =>
    rw [List.flatMap_cons]
    exact piecesApart_append (h x List.mem_cons_self) (ih fun y hy =>
      h y (List.mem_cons_of_mem _ hy))

theorem piecesApart_enter {n m : UInt32} (h : m ≠ n) (mode : RenderMode) :
    piecesApart n [.enter m mode] := by
  intro r
  by_cases hw : r.wants m = true
  · simpa [Renderer.log, Renderer.events, hw, eventsText, Event.text]
      using keepsApart_labelLine h mode
  · simpa [Renderer.log, Renderer.events, hw, eventsText, Event.text] using keepsApart_nil n

theorem piecesApart_margin (n : UInt32) : piecesApart n [.margin] := by
  intro r
  have hindent : keepsApart n indentation.toList := keepsApart_of_labelFree (by decide)
  by_cases hl : r.atLineStart = true
  · simpa [Renderer.log, Renderer.events, hl, eventsText, Event.text] using hindent
  · simpa [Renderer.log, Renderer.events, hl, eventsText, Event.text] using keepsApart_nil n

theorem piecesApart_text {n : UInt32} {s : String} (h : keepsApart n s.toList) :
    piecesApart n [.text s] := by
  intro r
  simpa [Renderer.log, Renderer.events, eventsText, Event.text] using h

theorem piecesApart_texts {n : UInt32} {s t : String} (h : keepsApart n (s ++ t).toList) :
    piecesApart n [.text s, .text t] := by
  intro r
  simpa [Renderer.log, Renderer.events, eventsText, Event.text] using h

theorem piecesApart_parts {n : UInt32} {o : RenderOptions} {parts : List Part} (hq : quiet parts)
    (h : ∀ m c, .operand m c ∈ parts → piecesApart n (c.pieces o m)) :
    piecesApart n (parts.flatMap (Part.pieces o)) := by
  refine piecesApart_flatMap fun p hp => ?_
  cases p with
  | text s => exact piecesApart_text (keepsApart_of_labelFree (hq s hp))
  | margin => exact piecesApart_margin n
  | operand m c => exact h m c hp

theorem piecesApart_wrap {n : UInt32} {o : RenderOptions} {body : List Part}
    (h : piecesApart n (body.flatMap (Part.pieces o))) (mode : RenderMode) :
    piecesApart n ((mode.wrap body).flatMap (Part.pieces o)) := by
  have hsurround (s : String) (hs : labelFree s) :
      piecesApart n ((mode.inStatement [.text s]).flatMap (Part.pieces o)) := by
    have hquiet : allTexts labelFree (mode.inStatement [.text s]) := by simp [hs]
    exact piecesApart_parts hquiet (by cases mode <;> simp [RenderMode.inStatement])
  have hindent := hsurround indentation (by decide)
  have hend := hsurround terminator (by decide)
  rw [RenderMode.wrap, List.flatMap_append, List.flatMap_append]
  exact piecesApart_append (piecesApart_append hindent h) hend

theorem piecesApart_jump {n m : UInt32} {o : RenderOptions} {mode : RenderMode} {node : Node Expr}
    (hjump : jumpOffset? node = some m)
    (h : ∀ m c, .operand m c ∈ node.layout o mode → piecesApart n (c.pieces o m)) :
    piecesApart n ((node.layout o mode).flatMap (Part.pieces o)) := by
  have hgoto : keepsApart n ("goto " ++ labelName m).toList :=
    keepsApart_goto n m (by decide) (by decide) ⟨'g', by decide, by decide⟩
  -- only jumps name labels, and they do so behind other text on the line
  cases node <;> simp only [jumpOffset?, Option.some.injEq, reduceCtorEq] at hjump
  case jump offset =>
    subst hjump
    have hbody := piecesApart_text hgoto
    rw [Node.layout]
    exact piecesApart_wrap (by simpa [Part.pieces] using hbody) mode
  case jumpIfNot offset condition =>
    subst hjump
    have hcondition : piecesApart n (condition.pieces o .expression) :=
      h .expression condition (by simp [Node.layout, RenderMode.wrap])
    have htail : keepsApart n (") goto " ++ labelName offset).toList :=
      keepsApart_goto n offset (by decide) (by decide) ⟨'g', by decide, by decide⟩
    have hbegin : keepsApart n "if (!".toList := keepsApart_of_labelFree (by decide)
    have hbody := piecesApart_append (piecesApart_text hbegin)
      (piecesApart_append hcondition (piecesApart_text htail))
    rw [Node.layout]
    exact piecesApart_wrap (by simpa [Part.pieces] using hbody) mode
  case computedJump operand =>
    have hbody := piecesApart_texts hgoto
    simp only [Node.layout, hjump]
    exact piecesApart_wrap (by simpa [Part.pieces] using hbody) mode

theorem Expr.pieces_apart {n : UInt32} (o : RenderOptions) (mode : RenderMode) (e : Expr)
    (hindex : ∀ x ∈ e.walk, x.index ≠ n)
    (hstrings : ∀ x ∈ e.walk, ∀ s ∈ x.node.strings, labelFree s) :
    piecesApart n (e.pieces o mode) := by
  induction mode, e using Expr.render_induction (o := o) with
  | h mode e ih =>
    have hoperands (m : RenderMode) (c : Expr) (hc : .operand m c ∈ e.node.layout o mode) :
        piecesApart n (c.pieces o m) :=
      ih m c hc (fun x hx => hindex x (walk_subset_of_operand hc hx))
        fun x hx => hstrings x (walk_subset_of_operand hc hx)
    rw [e.pieces_eq]
    have henter : piecesApart n [.enter e.index mode] :=
      piecesApart_enter (hindex e e.self_mem_walk) mode
    refine piecesApart_cons henter ?_
    cases hjump : jumpOffset? e.node with
    | none =>
      exact piecesApart_parts
        (Node.quiet_layout hjump (hstrings e e.self_mem_walk) o mode) hoperands
    | some m => exact piecesApart_jump hjump hoperands

theorem scriptPieces_apart {n : UInt32} (o : RenderOptions) {script : List Expr}
    (hindex : ∀ x ∈ scriptWalk script, x.index ≠ n)
    (hstrings : ∀ x ∈ scriptWalk script, ∀ s ∈ x.node.strings, labelFree s) :
    piecesApart n (scriptPieces o script) := by
  refine piecesApart_flatMap fun e he => ?_
  have hsub : e.walk ⊆ scriptWalk script := fun x hx => List.mem_flatMap.mpr ⟨e, he, hx⟩
  exact e.pieces_apart o .statement (fun x hx => hindex x (hsub hx)) fun x hx =>
    hstrings x (hsub hx)

theorem wholeLines_of_startsLine {s : String} (h : startsLine s) : wholeLines s.toList := by
  rcases h with rfl | h
  · simpa using wholeLines_nil
  · intro c hc
    have hlast : s.toList.getLast? = some '\n' := by simpa [endsLine] using h
    simpa [hlast] using hc.symm

theorem labelsApart_nil (n : UInt32) : labelsApart n [] := by
  intro before after h
  simp at h

def labelLineText (n : UInt32) : String := "\t\tLabel_" ++ toString n.toNat ++ ":"

theorem trimBlanks_label {blanks : List Char} (h : ∀ c ∈ blanks, isBlank c) (n : UInt32) :
    trimBlanks (blanks ++ (labelName n ++ ":").toList) = (labelName n ++ ":").toList := by
  have htrim :=
    trimBlanks_of_blanks h 'L' ("abel_" ++ toString n.toNat).toList ':' (by decide) (by decide)
  simpa [labelName] using htrim

theorem trimBlanks_labelLineText (n : UInt32) :
    trimBlanks (labelLineText n).toList = (labelName n ++ ":").toList := by
  have htab : isBlank '\t' = true := by decide
  have hblanks : ∀ c ∈ ['\t', '\t'], isBlank c := by simp [htab]
  simpa [labelName, labelLineText] using trimBlanks_label hblanks n

theorem labelLine_statement (n : UInt32) : labelLine n .statement = labelLineText n ++ "\n" := by
  simp [labelLine, labelLineText, labelName, indentation, String.ext_iff]

theorem newline_not_mem_labelLineText (n : UInt32) : '\n' ∉ (labelLineText n).toList := by
  have hname := newline_not_mem_labelName n
  simpa [labelLineText, labelName] using hname

theorem textLines_labelled {n : UInt32} {t : String} (ht : wholeLines t.toList) (rest : String) :
    textLines (t ++ labelLine n .statement ++ rest).toList =
      textLines t.toList ++ (labelLineText n).toList :: textLines rest.toList := by
  have hline := textLines_line (newline_not_mem_labelLineText n) rest.toList
  simp only [labelLine_statement, String.toList_append, List.append_assoc]
  rw [textLines_append ht]
  exact congrArg _ hline

/-- A label line behind whole lines, none of which is like it, is the one that is
found. -/
theorem findLabelLine_labelled {n : UInt32} {t : String} (ht : wholeLines t.toList)
    (hapart : labelsApart n t.toList) (rest : String) :
    findLabelLine (t ++ labelLine n .statement ++ rest) n = some (t.toList.count '\n') := by
  have hbefore : (textLines t.toList).findIdx? (fun line =>
      trimBlanks line = (labelName n ++ ":").toList) = none :=
    List.findIdx?_eq_none_iff.mpr fun l hl => decide_eq_false (hapart.not_label_line hl)
  rw [findLabelLine, textLines_labelled ht, List.findIdx?_append, hbefore, ← length_textLines ht]
  simp [List.findIdx?_cons, trimBlanks_labelLineText]

theorem wants_after {script : List Expr} {o : RenderOptions} {n : UInt32} {targets : List UInt32}
    (htarget : n ∈ targets) (h : ∀ x ∈ scriptWalk script, x.index ≠ n) :
    (Renderer.renderAll { targets, options := o } script).wants n = true := by
  rw [Renderer.renderAll_eq, Renderer.wants_foldl_put]
  refine ⟨by simp [Renderer.wants, htarget], fun hn => ?_⟩
  obtain ⟨x, hx, hindex⟩ := mem_walk_of_entered hn
  exact h x hx hindex

theorem renderAll_split (r : Renderer) (before after : List Expr) (e : Expr) :
    r.renderAll (before ++ e :: after) =
      ((r.renderAll before).render e .statement).renderAll after := by
  simp [Renderer.renderAll]

theorem renderAll_text_extends (r : Renderer) (script : List Expr) :
    ∃ later, (r.renderAll script).text = r.text ++ later :=
  ⟨_, by rw [Renderer.renderAll_eq, Renderer.foldl_put_text]⟩

theorem render_labelled {r : Renderer} {e : Expr} (h : r.wants e.index = true) :
    ∃ rest, (r.render e .statement).text = r.text ++ labelLine e.index .statement ++ rest := by
  refine ⟨eventsText ((r.put (.enter e.index .statement)).log
    ((e.node.layout r.options .statement).flatMap (Part.pieces r.options))), ?_⟩
  rw [Renderer.render, e.pieces_eq, List.foldl_cons, Renderer.foldl_put_text, Renderer.put_text]
  simp [Renderer.events, h, eventsText, Event.text]

/-- Following a jump leads to the statement jumped to. The strings in front of it
may hold anything but the letter that labels begin with; the lines of the text are
counted from zero. -/
theorem findLabelLine_renderStatements {before after : List Expr} {e : Expr} {o : RenderOptions}
    (hlines : ∀ x ∈ before, startsLine (renderExpression x [] .statement o))
    (hstrings : ∀ x ∈ scriptWalk before, ∀ s ∈ x.node.strings, 'L' ∉ s.toList)
    (htarget : e.index ∈ jumpTargets (before ++ e :: after))
    (hfirst : ∀ x ∈ scriptWalk before, x.index ≠ e.index) :
    let script := before ++ e :: after
    let r := Renderer.renderAll { targets := jumpTargets script, options := o } before
    let k := r.text.toList.count '\n'
    findLabelLine (renderStatements script o) e.index = some k ∧
    (textLines (renderStatements script o).toList)[k]? =
      some ("\t\tLabel_" ++ toString e.index.toNat ++ ":").toList ∧
    ∃ rest later,
      (r.render e .statement).text =
        r.text ++ ("\t\tLabel_" ++ toString e.index.toNat ++ ":" ++ "\n") ++ rest ∧
      renderStatements script o = (r.render e .statement).text ++ later := by
  intro script r k
  let start : Renderer := { targets := jumpTargets script, options := o }
  have hr : r = (scriptPieces o before).foldl Renderer.put start := start.renderAll_eq before
  have hwhole : wholeLines r.text.toList := by
    have hsettled : r.Settled := hr ▸ (Renderer.settled_new _ o).foldl_put _
    have hflag : r.atLineStart = true := hr ▸ Renderer.atLineStart_script hlines rfl
    exact wholeLines_of_startsLine (hsettled.mp hflag)
  have hapart : labelsApart e.index r.text.toList := by
    have hkeeps := scriptPieces_apart o hfirst hstrings start [] (labelsApart_nil e.index)
    have hstart : start.text = "" := rfl
    rw [hr, Renderer.foldl_put_text]
    simpa [hstart] using hkeeps
  obtain ⟨rest, hrest⟩ := render_labelled (wants_after (o := o) htarget hfirst)
  obtain ⟨later, hlater⟩ := renderAll_text_extends (r.render e .statement) after
  have htext :
      renderStatements script o = r.text ++ labelLine e.index .statement ++ (rest ++ later) := by
    rw [renderStatements, renderAll_split, hlater, hrest, String.append_assoc]
  refine ⟨?_, ?_, rest, later, ?_, ?_⟩
  · rw [htext]
    exact findLabelLine_labelled hwhole hapart _
  · rw [htext, textLines_labelled hwhole,
      List.getElem?_append_right (by simp [k, length_textLines hwhole])]
    simp [k, length_textLines hwhole, labelLineText]
  · rw [hrest, labelLine_statement]
    rfl
  · rw [renderStatements, renderAll_split, hlater]

theorem findLabelLine_of_final_return :
    let e : Expr := ⟨5, .ret ⟨6, .atom .nothing⟩⟩
    (∀ x ∈ [⟨0, .jump 5⟩], startsLine (renderExpression x [] .statement ⟨false⟩)) ∧
    e.index ∈ jumpTargets [⟨0, .jump 5⟩, e] ∧
    findLabelLine (renderStatements [⟨0, .jump 5⟩, e] ⟨false⟩) 5 = some 2 := by
  intro e
  have hlines : ∀ x ∈ [⟨0, .jump 5⟩], startsLine (renderExpression x [] .statement ⟨false⟩) := by
    simp only [List.forall_mem_cons]
    exact ⟨.inr (by cbv), by simp⟩
  have hwalk : scriptWalk [⟨0, .jump 5⟩] = [⟨0, .jump 5⟩] := by
    simp [scriptWalk, Expr.walk_eq, Expr.children, Node.children]
  have htarget : e.index ∈ jumpTargets [⟨0, .jump 5⟩, e] := by decide +kernel
  have h := findLabelLine_renderStatements (o := ⟨false⟩) hlines (by simp [hwalk, Node.strings])
    htarget (by simp [hwalk, e])
  exact ⟨hlines, htarget, h.1.trans (by cbv)⟩

end Pseudocode
