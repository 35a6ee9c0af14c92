import Pseudocode.Proofs.Locality

/-! Statements against the expressions that they are. A node has the same operands
in the same places in both positions; as a statement it may stand behind an
indentation and in front of the end of its line as well. Only nodes that write
something of their own for one of the positions are told apart by more. -/

namespace Pseudocode

/-- An expression and the operands that stand for it, each in the mode of the first. -/
def Expr.chain : Expr → List Expr
  | ⟨index, .wrapper kind operand⟩ => ⟨index, .wrapper kind operand⟩ :: operand.chain
  | ⟨index, .convert .objectToInterface operand⟩ =>
    ⟨index, .convert .objectToInterface operand⟩ :: operand.chain
  | e => [e]

theorem Node.eq_of_passedOn {ε : Type} {node : Node ε} {c : ε} (h : node.passedOn? = some c) :
    (∃ kind, node = .wrapper kind c) ∨ node = .convert .objectToInterface c := by
  unfold passedOn? at h
  split at h
  · next kind operand => exact .inl ⟨kind, by rw [Option.some.inj h]⟩
  · exact .inr (by rw [Option.some.inj h])
  · cases h

theorem Expr.chain_of_passedOn {e c : Expr} (h : e.node.passedOn? = some c) :
    e.chain = e :: c.chain := by
  obtain ⟨index, node⟩ := e
  obtain ⟨kind, rfl⟩ | rfl :
      (∃ kind, node = .wrapper kind c) ∨ node = .convert .objectToInterface c :=
    Node.eq_of_passedOn h
  · rw [chain]
  · rw [chain]

theorem Expr.chain_of_written {e : Expr} (h : e.node.passedOn? = none) : e.chain = [e] := by
  obtain ⟨index, node⟩ := e
  cases node <;> try rfl
  case wrapper kind operand => cases h
  case convert conversion operand => cases conversion <;> first | rfl | cases h

theorem Expr.chain_ne_nil (e : Expr) : e.chain ≠ [] := by
  cases h : e.node.passedOn? with
  | some c => simp [chain_of_passedOn h]
  | none => simp [chain_of_written h]

/-- Whether a node writes something else as a statement than inside an expression:
the end of a script, a context that may fail quietly, and a call with arguments
that names the class it is made on. -/
def Node.changesForm {ε : Type} : Node ε → Bool
  | .atom .endOfScript => true
  | .context .failSilent _ _ _ _ => true
  | .finalCall .onSelf _ (_ :: _) => true
  | _ => false

/-- Whether a node is laid out as a statement the way it is inside an expression,
but for its margin and its end. -/
def Node.isFramed (o : RenderOptions) (node : Node Expr) : Prop :=
  ∃ front back : List Part, front ∈ [[], [.margin], [.text indentation]] ∧
    back ∈ [[], [.text ";\n"], [.text terminator], [.text "\n\n"]] ∧
    node.layout o .statement = front ++ node.layout o .expression ++ back

theorem Node.isFramed_of_eq {o : RenderOptions} {node : Node Expr}
    (h : node.layout o .statement = node.layout o .expression) : node.isFramed o :=
  ⟨[], [], by simp, by simp, by simpa using h⟩

theorem Node.isFramed_of_wrap {o : RenderOptions} {node : Node Expr} {ps : List Part}
    (h : ∀ mode, node.layout o mode = mode.wrap ps) : node.isFramed o := by
  refine ⟨[.text indentation], [.text terminator], by simp, by simp, ?_⟩
  rw [h, h]
  simp [RenderMode.wrap, RenderMode.inStatement]

theorem isFramed_assignment {o : RenderOptions} {node : Node Expr} {target assignment : Expr}
    (h : ∀ mode, node.layout o mode = assignmentParts mode target assignment) :
    node.isFramed o := by
  cases hcall : assignment.isCall with
  | true =>
    refine ⟨[.text indentation], [], by simp, by simp, ?_⟩
    rw [h, h]
    simp [assignmentParts, RenderMode.inStatement, hcall]
  | false =>
    refine ⟨[.text indentation], [.text terminator], by simp, by simp, ?_⟩
    rw [h, h]
    simp [assignmentParts, RenderMode.inStatement, hcall]

theorem Node.isFramed_layout {node : Node Expr} (hpassed : node.passedOn? = none)
    (hform : node.changesForm = false) (o : RenderOptions) : node.isFramed o := by
  cases node
  case atom a =>
    have ha : a ≠ .endOfScript := by rintro rfl; cases hform
    exact isFramed_of_eq (by simp [layout, ha])
  case text source => cases source <;> exact isFramed_of_eq rfl
  case objectConst value => exact ⟨[.margin], [], by simp, by simp, rfl⟩
  case fill kind target elements => exact isFramed_of_wrap fun _ => rfl
  case assign value target assignment => exact isFramed_assignment fun _ => rfl
  case letKind kind target assignment => exact isFramed_assignment fun _ => rfl
  case persistentLet destination assignment => exact isFramed_of_wrap fun _ => rfl
  case context kind object offset result member =>
    cases kind
    case failSilent => cases hform
    all_goals
      refine ⟨[.margin], [.text terminator], by simp, by simp, ?_⟩
      simp [layout, RenderMode.inStatement]
  case wrapper kind operand => cases hpassed
  case classCast kind class_ operand => exact isFramed_of_wrap fun _ => rfl
  case convert conversion operand =>
    cases conversion
    case objectToInterface => cases hpassed
    all_goals exact isFramed_of_wrap fun _ => rfl
  case virtualCall kind function arguments => exact isFramed_of_wrap fun _ => rfl
  case finalCall kind function arguments =>
    cases kind
    case math => exact isFramed_of_wrap fun _ => rfl
    case anywhere =>
      refine ⟨[.text indentation], [.text ";\n"], by simp, by simp, ?_⟩
      simp [layout, RenderMode.inStatement]
    case onSelf =>
      cases arguments with
      | nil =>
        refine ⟨[.text indentation], [.text ";\n"], by simp, by simp, ?_⟩
        simp [layout, RenderMode.inStatement]
      | cons e es => cases hform
  case changeDelegate change delegate operand =>
    cases hd : delegate.node.isDelegateReceiver with
    | true => exact isFramed_of_wrap fun mode => if_pos hd
    | false => exact isFramed_of_eq (by simp [layout, hd])
  case clearDelegate delegate => exact isFramed_of_wrap fun _ => rfl
  case callDelegate signature delegate arguments =>
    cases hd : delegate.node.isDelegateReceiver with
    | true => exact isFramed_of_wrap fun mode => if_pos hd
    | false => exact isFramed_of_eq (by simp [layout, hd])
  case bindDelegate function delegate object => exact isFramed_of_wrap fun _ => rfl
  case ret operand => exact isFramed_of_wrap fun _ => rfl
  case jump offset => exact isFramed_of_wrap fun _ => rfl
  case jumpIfNot offset condition => exact isFramed_of_wrap fun _ => rfl
  case computedJump offset => exact isFramed_of_wrap fun _ => rfl
  case popFlowIfNot condition => exact isFramed_of_wrap fun _ => rfl
  case switch endOffset index default_ cases =>
    cases ht : isTernary cases with
    | true => exact isFramed_of_wrap fun mode => if_pos ht
    | false =>
      refine ⟨[.text indentation], [.text "\n\n"], by simp, by simp, ?_⟩
      simp [layout, ht, RenderMode.inStatement]
  all_goals exact isFramed_of_eq rfl

/-- Inside an expression nothing depends on what the line holds already. -/
theorem Node.allPlain_expression (o : RenderOptions) (node : Node Expr) :
    allPlain (node.layout o .expression) := by
  rcases node.layout_shape o .expression with ⟨c, -, hl⟩ | ⟨rest, hrest, hl | hl⟩
  · simp [hl]
  · rwa [hl]
  · simpa [hl, RenderMode.inStatement] using hrest

theorem renderExpression_unlabelled {e : Expr} {targets : List UInt32} (h : e.index ∉ targets)
    (mode : RenderMode) (o : RenderOptions) :
    renderExpression e targets mode o =
      eventsText (Renderer.log { targets, options := o }
        ((e.node.layout o mode).flatMap (Part.pieces o))) := by
  rw [renderExpression_eq, e.pieces_eq]
  simp [Renderer.log, Renderer.events, Renderer.put, Renderer.emitLabel, Renderer.wants, h,
    eventsText, Event.text]

theorem renderExpression_passedOn {e c : Expr} {targets : List UInt32} (h : e.index ∉ targets)
    (hpassed : e.node.passedOn? = some c) (mode : RenderMode) (o : RenderOptions) :
    renderExpression e targets mode o = renderExpression c targets mode o := by
  have hlayout : e.node.layout o mode = [.operand mode c] := by
    rcases Node.eq_of_passedOn hpassed with ⟨kind, hnode⟩ | hnode <;> rw [hnode] <;> rfl
  rw [renderExpression_unlabelled h, hlayout, renderExpression_eq]
  simp [Part.pieces]

theorem log_plain {r s : Renderer} {o : RenderOptions} {parts : List Part} (hplain : allPlain parts)
    (hwants : ∀ n, r.wants n = s.wants n) :
    r.log (parts.flatMap (Part.pieces o)) = s.log (parts.flatMap (Part.pieces o)) :=
  Renderer.log_congr (fun n _ => hwants n) fun hm =>
    absurd hm (margin_not_mem_parts hplain fun c _ => c.margin_not_mem_pieces o rfl)

theorem log_front {front : List Part} (h : front ∈ [[], [.margin], [.text indentation]])
    {r : Renderer} (hr : r.atLineStart = true) (o : RenderOptions) :
    eventsText (r.log (front.flatMap (Part.pieces o))) ∈ ["", "\t\t"] ∧
      ∀ n, ((front.flatMap (Part.pieces o)).foldl Renderer.put r).wants n = r.wants n := by
  have hindentation : indentation = "\t\t" := rfl
  simp only [List.mem_cons, List.not_mem_nil, or_false] at h
  rcases h with rfl | rfl | rfl
  · simp [Renderer.log]
  · simp [Part.pieces, Renderer.log, Renderer.events, Renderer.put, hr, eventsText, Event.text,
      hindentation, Renderer.wants]
  · simp [Part.pieces, Renderer.log, Renderer.events, Renderer.put, eventsText, Event.text,
      hindentation, Renderer.wants]

theorem log_back {back : List Part}
    (h : back ∈ [[], [.text ";\n"], [.text terminator], [.text "\n\n"]]) (o : RenderOptions) :
    ∃ t ∈ ["", ";\n", ";\n\n", "\n\n"], ∀ r : Renderer,
      eventsText (r.log (back.flatMap (Part.pieces o))) = t := by
  have hterminator : terminator = ";\n\n" := rfl
  simp only [List.mem_cons, List.not_mem_nil, or_false] at h
  rcases h with rfl | rfl | rfl | rfl <;>
    simp [Part.pieces, Renderer.log, Renderer.events, eventsText, Event.text, hterminator]

theorem renderExpression_framed {e : Expr} {targets : List UInt32} {o : RenderOptions}
    (hlabel : e.index ∉ targets) (h : e.node.isFramed o) :
    ∃ front ∈ ["", "\t\t"], ∃ back ∈ ["", ";\n", ";\n\n", "\n\n"],
      renderExpression e targets .statement o =
        front ++ renderExpression e targets .expression o ++ back := by
  obtain ⟨front, back, hfront, hback, hlayout⟩ := h
  obtain ⟨fresh, hfresh⟩ : ∃ fresh : Renderer, fresh = { targets, options := o } := ⟨_, rfl⟩
  obtain ⟨hmargin, hwants⟩ := log_front hfront (r := fresh) (by rw [hfresh]) o
  have hinside : ((front.flatMap (Part.pieces o)).foldl Renderer.put fresh).log
      ((e.node.layout o .expression).flatMap (Part.pieces o)) =
        fresh.log ((e.node.layout o .expression).flatMap (Part.pieces o)) :=
    log_plain (e.node.allPlain_expression o) hwants
  obtain ⟨ending, hending, hbehind⟩ := log_back hback o
  refine ⟨_, hmargin, ending, hending, ?_⟩
  rw [renderExpression_unlabelled hlabel, renderExpression_unlabelled hlabel, hlayout,
    ← hfresh, ← hinside]
  simp only [List.flatMap_append, Renderer.log_append, eventsText_append, hbehind]

/-- A statement is its expression, behind two tabs or nothing and in front of one
of four ends, as long as nothing jumps to the nodes that it is rendered as and the
last of these does not write something else as a statement. -/
theorem statement_frames_expression {e : Expr} {targets : List UInt32}
    (hlabels : ∀ x ∈ e.chain, x.index ∉ targets)
    (hlast : ∀ x ∈ e.chain.getLast?, x.node.changesForm = false) (o : RenderOptions) :
    ∃ front ∈ ["", "\t\t"], ∃ back ∈ ["", ";\n", ";\n\n", "\n\n"],
      renderExpression e targets .statement o =
        front ++ renderExpression e targets .expression o ++ back := by
  induction e using Expr.induction with
  | h e ih =>
    cases hpassed : e.node.passedOn? with
    | none =>
      rw [Expr.chain_of_written hpassed] at hlabels hlast
      exact renderExpression_framed (hlabels e (by simp))
        (Node.isFramed_layout hpassed (hlast e (by simp)) o)
    | some c =>
      rw [Expr.chain_of_passedOn hpassed] at hlabels hlast
      have hlabel : e.index ∉ targets := hlabels e (by simp)
      have hchild : c ∈ e.children := by
        rcases Node.eq_of_passedOn hpassed with ⟨kind, hnode⟩ | hnode <;>
          simp [Expr.children, hnode, Node.children]
      rw [List.getLast?_cons_of_ne_nil c.chain_ne_nil] at hlast
      have hc := ih c hchild (fun x hx => hlabels x (List.mem_cons_of_mem _ hx)) hlast
      simpa only [renderExpression_passedOn hlabel hpassed] using hc

def openThroughInterface : Expr :=
  ⟨0, .wrapper .interface ⟨1, .context .object ⟨2, .var .member (.legacy "Door")⟩ 0 none
    ⟨5, .finalCall .anywhere ⟨"Open", .resolvedScriptObject, none, none⟩ []⟩⟩⟩

theorem statement_frames_expression_openThroughInterface :
    (∀ x ∈ openThroughInterface.chain, x.index ∉ ([5] : List UInt32)) ∧
    (∀ x ∈ openThroughInterface.chain.getLast?, x.node.changesForm = false) ∧
    renderExpression openThroughInterface [5] .expression ⟨false⟩ = "Door->Label_5:\nOpen()" ∧
    ∃ front ∈ ["", "\t\t"], ∃ back ∈ ["", ";\n", ";\n\n", "\n\n"],
      renderExpression openThroughInterface [5] .statement ⟨false⟩ =
        front ++ "Door->Label_5:\nOpen()" ++ back := by
  have hlabels : ∀ x ∈ openThroughInterface.chain, x.index ∉ ([5] : List UInt32) := by
    simp [openThroughInterface, Expr.chain]
  have hlast : ∀ x ∈ openThroughInterface.chain.getLast?, x.node.changesForm = false := by
    simp [openThroughInterface, Expr.chain, Node.changesForm]
  have htext : renderExpression openThroughInterface [5] .expression ⟨false⟩ =
      "Door->Label_5:\nOpen()" := by
    cbv
  have hframed := statement_frames_expression hlabels hlast ⟨false⟩
  rw [htext] at hframed
  exact ⟨hlabels, hlast, htext, hframed⟩

end Pseudocode
