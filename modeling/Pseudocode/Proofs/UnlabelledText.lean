import Pseudocode.Proofs.RenderLog

/-! Runs over different targets. The only text that depends on what came before
is the margin of a statement. It stands behind nothing but labels, and a label
ends its line, so that the margin is the same with labels and without. -/

namespace Pseudocode

/-- A part that is written alike wherever it stands. -/
def Part.isPlain : Part → Prop
  | .text _ => True
  | .margin => False
  | .operand mode _ => mode = .expression

def allPlain (parts : List Part) : Prop := ∀ p ∈ parts, p.isPlain

@[simp] theorem allPlain_nil : allPlain [] := by simp [allPlain]

@[simp] theorem allPlain_append (ps qs : List Part) :
    allPlain (ps ++ qs) ↔ allPlain ps ∧ allPlain qs :=
  List.forall_mem_append

@[simp] theorem allPlain_text (s : String) (ps : List Part) :
    allPlain (.text s :: ps) ↔ allPlain ps := by
  simp [allPlain, Part.isPlain]

@[simp] theorem allPlain_operand (m : RenderMode) (e : Expr) (ps : List Part) :
    allPlain (.operand m e :: ps) ↔ m = .expression ∧ allPlain ps := by
  simp [allPlain, Part.isPlain]

@[simp] theorem allPlain_inStatement_text (mode : RenderMode) (s : String) :
    allPlain (mode.inStatement [.text s]) := by
  cases mode <;> simp [RenderMode.inStatement]

@[simp] theorem allPlain_wrap (mode : RenderMode) (ps : List Part) :
    allPlain (mode.wrap ps) ↔ allPlain ps := by
  simp [RenderMode.wrap]

@[simp] theorem allPlain_ite (b : Prop) [Decidable b] (ps qs : List Part) :
    allPlain (if b then ps else qs) ↔ (b → allPlain ps) ∧ (¬ b → allPlain qs) := by
  split <;> simp_all

@[simp] theorem allPlain_argumentParts (lines : Bool) (es : List Expr) :
    allPlain (argumentParts lines es) := by
  induction es with
  | nil => exact allPlain_nil
  | cons e es ih => simp [argumentParts, ih]

@[simp] theorem allPlain_callParts (callee : String) (es : List Expr) :
    allPlain (callParts callee es) := by
  simp [callParts]

@[simp] theorem allPlain_elementParts (es : List Expr) : allPlain (elementParts es) := by
  induction es with
  | nil => exact allPlain_nil
  | cons e es ih => simp [elementParts, ih]

@[simp] theorem allPlain_pairParts (es : List Expr) : allPlain (pairParts es) := by
  induction es using pairParts.induct with
  | case1 => exact allPlain_nil
  | case2 key => simp [pairParts]
  | case3 key value rest ih => simp [pairParts, ih]

@[simp] theorem allPlain_containerParts (kind : ContainerKind) (es : List Expr) :
    allPlain (containerParts kind es) := by
  simp [containerParts]

@[simp] theorem allPlain_fieldParts (es : List Expr) : allPlain (fieldParts es) := by
  induction es with
  | nil => exact allPlain_nil
  | cons e es ih => simp [fieldParts, ih]

@[simp] theorem allPlain_assignmentParts (mode : RenderMode) (target assignment : Expr) :
    allPlain (assignmentParts mode target assignment) := by
  simp [assignmentParts]

@[simp] theorem allPlain_intersperse (s : String) (es : List Expr) :
    allPlain ((es.map Part.inside).intersperse (.text s)) := by
  induction es with
  | nil => exact allPlain_nil
  | cons e es ih =>
    cases es with
    | nil => simp
    | cons e' es => simpa [List.intersperse] using ih

@[simp] theorem allPlain_cases (cases : List (SwitchCase Expr)) :
    allPlain (cases.flatMap caseParts) := by
  induction cases with
  | nil => exact allPlain_nil
  | cons c cases ih => cases h : c.key.node.int? <;> simpa [caseParts, h] using ih

def Node.passedOn? {ε : Type} : Node ε → Option ε
  | .wrapper _ operand => some operand
  | .convert .objectToInterface operand => some operand
  | _ => none

/-- A node is its operand in the same mode, or plain parts behind at most a
margin, which only a statement has. -/
theorem Node.layout_shape (o : RenderOptions) (mode : RenderMode) (node : Node Expr) :
    (∃ c, node.passedOn? = some c ∧ node.layout o mode = [.operand mode c]) ∨
      ∃ rest, allPlain rest ∧
        (node.layout o mode = rest ∨ node.layout o mode = mode.inStatement [.margin] ++ rest) := by
  have plain (h : allPlain (node.layout o mode)) : ∃ rest, allPlain rest ∧
    (node.layout o mode = rest ∨ node.layout o mode = mode.inStatement [.margin] ++ rest) :=
    ⟨_, h, .inl rfl⟩
  cases node
  case wrapper kind operand => exact .inl ⟨operand, rfl, rfl⟩
  case convert conversion operand =>
    cases conversion
    case objectToInterface => exact .inl ⟨operand, rfl, rfl⟩
    all_goals exact .inr (plain (by simp [Node.layout]))
  case objectConst value => exact .inr ⟨[.text value.findText], by simp, .inr rfl⟩
  case context kind object offset result member =>
    right
    cases kind
    case failSilent => cases mode <;> exact plain (by simp [Node.layout])
    all_goals
      refine ⟨[.inside object, .text "->", .inside member] ++ mode.inStatement [.text terminator],
        by simp, .inr ?_⟩
      simp [Node.layout]
  case text source => cases source <;> exact .inr (plain (by simp [Node.layout]))
  case finalCall kind function arguments =>
    cases kind <;> exact .inr (plain (by simp [Node.layout]))
  case computedJump offset =>
    cases h : constantOffset? offset.node <;> exact .inr (plain (by simp [Node.layout, h]))
  all_goals exact .inr (plain (by simp [Node.layout]))

theorem Node.operand_mode {o : RenderOptions} {mode m : RenderMode} {node : Node Expr} {c : Expr}
    (h : .operand m c ∈ node.layout o mode) :
    m = .expression ∨ m = mode ∧ node.passedOn? = some c ∧ node.layout o mode =
      [.operand mode c] := by
  rcases node.layout_shape o mode with ⟨c', hpassed, hl⟩ | ⟨rest, hp, hl⟩
  · obtain ⟨rfl, rfl⟩ : m = mode ∧ c = c' := by simpa [hl] using h
    exact .inr ⟨rfl, hpassed, hl⟩
  · have hmem : .operand m c ∈ rest := by
      rcases hl with hl | hl
      · rwa [hl] at h
      · cases mode <;> simpa [hl, RenderMode.inStatement] using h
    exact .inl (hp _ hmem)

theorem margin_not_mem_parts {o : RenderOptions} {parts : List Part} (hp : allPlain parts)
    (h : ∀ c, .inside c ∈ parts → .margin ∉ c.pieces o .expression) :
    .margin ∉ parts.flatMap (Part.pieces o) := by
  intro hm
  obtain ⟨p, hmem, hm⟩ := List.mem_flatMap.mp hm
  have hplain := hp p hmem
  cases p with
  | text s => simp [Part.pieces] at hm
  | margin => exact hplain
  | operand m c =>
    obtain rfl : m = .expression := hplain
    exact h c hmem hm

theorem Expr.margin_not_mem_pieces (o : RenderOptions) {mode : RenderMode} (hm : mode = .expression)
    (e : Expr) : .margin ∉ e.pieces o mode := by
  induction mode, e using Expr.render_induction (o := o) with
  | h mode e ih =>
    subst hm
    rw [e.pieces_eq]
    rcases Node.layout_shape o .expression e.node with ⟨c, -, hl⟩ | ⟨rest, hp, hl⟩
    · have hc := ih .expression c (by simp [hl]) rfl
      simpa [hl, Part.pieces] using hc
    · replace hl : e.node.layout o .expression = rest := by simpa [RenderMode.inStatement] using hl
      have hr := margin_not_mem_parts hp fun c hc => ih .expression c (by rwa [hl]) rfl
      simpa [hl] using hr

/-- No margin stands behind a text. -/
def marginsLead : List Piece → Prop
  | [] => True
  | .enter _ _ :: ps => marginsLead ps
  | .margin :: ps => .margin ∉ ps
  | .text _ :: ps => .margin ∉ ps

theorem marginsLead_of_not_mem {ps : List Piece} (h : .margin ∉ ps) : marginsLead ps := by
  induction ps with
  | nil => trivial
  | cons p ps ih =>
    simp only [List.mem_cons, not_or] at h
    cases p with
    | enter offset mode => exact ih h.2
    | margin => exact absurd rfl h.1
    | text s => exact h.2

theorem Expr.marginsLead_pieces (o : RenderOptions) (mode : RenderMode) (e : Expr) :
    marginsLead (e.pieces o mode) := by
  induction mode, e using Expr.render_induction (o := o) with
  | h mode e ih =>
    rw [e.pieces_eq]
    rcases Node.layout_shape o mode e.node with ⟨c, -, hl⟩ | ⟨rest, hp, hl⟩
    · have hc := ih mode c (by simp [hl])
      simpa [hl, Part.pieces, marginsLead] using hc
    · have hr := margin_not_mem_parts (o := o) hp fun c _ => c.margin_not_mem_pieces o rfl
      rcases hl with hl | hl
      · have hrest := marginsLead_of_not_mem hr
        simpa [hl, marginsLead] using hrest
      · cases mode with
        | statement => simpa [hl, RenderMode.inStatement, Part.pieces, marginsLead] using hr
        | expression =>
          have hrest := marginsLead_of_not_mem hr
          simpa [hl, RenderMode.inStatement, marginsLead] using hrest

@[simp] theorem unlabelled_append (es fs : List Event) :
    unlabelled (es ++ fs) = unlabelled es ++ unlabelled fs := List.filter_append ..

namespace Renderer

theorem unlabelled_enter (r : Renderer) (offset : UInt32) (mode : RenderMode) :
    unlabelled (r.events (.enter offset mode)) = [.enter offset mode] := by
  simp only [events]
  split <;> rfl

theorem unlabelled_log_of_not_mem {ps : List Piece} (h : .margin ∉ ps) (r s : Renderer) :
    unlabelled (r.log ps) = unlabelled (s.log ps) := by
  induction ps generalizing r s with
  | nil => rfl
  | cons p ps ih =>
    simp only [List.mem_cons, not_or] at h
    simp only [log, unlabelled_append, ih h.2 (r.put p) (s.put p)]
    cases p with
    | text t => rfl
    | enter offset mode => simp only [unlabelled_enter]
    | margin => exact absurd rfl h.1

theorem atLineStart_write {r : Renderer} {s : String} (hs : s ≠ "") :
    (r.write s).atLineStart = endsLine s := by
  simp [write, hs]

theorem labelLine_ends (offset : UInt32) (mode : RenderMode) :
    endsLine (labelLine offset mode) = true := by
  cases mode <;> simp [labelLine, endsLine, List.getLast?_append]

theorem atLineStart_emitLabel {r : Renderer} (h : r.atLineStart = true) (offset : UInt32)
    (mode : RenderMode) : (r.emitLabel offset mode).atLineStart = true := by
  rw [emitLabel_eq]
  split
  · have hne : labelLine offset mode ≠ "" := by
      intro he
      have hends := labelLine_ends offset mode
      rw [he] at hends
      cases hends
    rw [atLineStart_write hne, labelLine_ends]
  · exact h

/-- From the start of a line, a run does the same whatever labels it has to write. -/
theorem unlabelled_log {ps : List Piece} (h : marginsLead ps) {r s : Renderer}
    (hr : r.atLineStart = true) (hs : s.atLineStart = true) :
    unlabelled (r.log ps) = unlabelled (s.log ps) := by
  induction ps generalizing r s with
  | nil => rfl
  | cons p ps ih =>
    simp only [log, unlabelled_append]
    cases p with
    | text t => rw [unlabelled_log_of_not_mem h (r.put (.text t)) (s.put (.text t))]; rfl
    | enter offset mode =>
      have hrest :=
        ih h (atLineStart_emitLabel hr offset mode) (atLineStart_emitLabel hs offset mode)
      simp only [unlabelled_enter]
      exact congrArg _ hrest
    | margin =>
      rw [unlabelled_log_of_not_mem h (r.put .margin) (s.put .margin)]
      simp only [events, hr, hs]

theorem unlabelled_log_of_no_targets {r : Renderer} (h : r.targets = []) (ps : List Piece) :
    unlabelled (r.log ps) = r.log ps := by
  induction ps generalizing r with
  | nil => rfl
  | cons p ps ih =>
    have hevents : unlabelled (r.events p) = r.events p := by
      cases p with
      | text t => rfl
      | enter offset mode => simp [events, wants, h, unlabelled, Event.isLabel]
      | margin => simp only [events]; split <;> rfl
    simp only [log, unlabelled_append, hevents, ih (r.put_targets p ▸ h)]

/-- A renderer with labels to write is at the start of a line whenever one without is. -/
theorem atLineStart_put {r s : Renderer} (hs : s.targets = [])
    (h : s.atLineStart = true → r.atLineStart = true) (p : Piece) :
    (s.put p).atLineStart = true → (r.put p).atLineStart = true := by
  cases p with
  | text t =>
    by_cases ht : t = ""
    · simpa [put, write, ht] using h
    · simp [put, atLineStart_write ht]
  | enter offset mode =>
    intro he
    have hno : s.wants offset = false := by simp [wants, hs]
    exact atLineStart_emitLabel (h (by simpa [put, emitLabel_eq, hno] using he)) offset mode
  | margin =>
    have hi : endsLine indentation = false := by decide
    have hne : indentation ≠ "" := by decide
    cases hf : s.atLineStart with
    | false => simp [put, hf]
    | true => simp [put, hf, atLineStart_write hne, hi]

theorem atLineStart_foldl_put {r s : Renderer} (hs : s.targets = [])
    (h : s.atLineStart = true → r.atLineStart = true) (ps : List Piece) :
    (ps.foldl put s).atLineStart = true → (ps.foldl put r).atLineStart = true := by
  induction ps generalizing r s with
  | nil => exact h
  | cons p ps ih => exact ih (by simpa using hs) (atLineStart_put hs h p)

theorem atLineStart_statement {e : Expr} {o : RenderOptions}
    (h : startsLine (renderExpression e [] .statement o)) {r : Renderer}
    (hr : r.atLineStart = true) : ((e.pieces o .statement).foldl put r).atLineStart = true := by
  have hfresh := (settled_new [] o).foldl_put (e.pieces o .statement)
  exact atLineStart_foldl_put rfl (fun _ => hr) _ (hfresh.mpr h)

theorem atLineStart_script {script : List Expr} {o : RenderOptions}
    (h : ∀ e ∈ script, startsLine (renderExpression e [] .statement o)) {r : Renderer}
    (hr : r.atLineStart = true) : ((scriptPieces o script).foldl put r).atLineStart = true := by
  induction script generalizing r with
  | nil => exact hr
  | cons e script ih =>
    have he := atLineStart_statement (h e List.mem_cons_self) hr
    simpa [scriptPieces] using ih (fun x hx => h x (List.mem_cons_of_mem _ hx)) he

/-- Between statements that end their lines, labels change nothing but the text
that they add. -/
theorem unlabelled_log_script {script : List Expr} {o : RenderOptions}
    (h : ∀ e ∈ script, startsLine (renderExpression e [] .statement o)) {r s : Renderer}
    (hr : r.atLineStart = true) (hs : s.atLineStart = true) :
    unlabelled (r.log (scriptPieces o script)) = unlabelled (s.log (scriptPieces o script)) := by
  induction script generalizing r s with
  | nil => rfl
  | cons e script ih =>
    have he := h e List.mem_cons_self
    have hrest := ih (fun x hx => h x (List.mem_cons_of_mem _ hx)) (atLineStart_statement he hr)
      (atLineStart_statement he hs)
    simp only [scriptPieces, List.flatMap_cons, log_append, unlabelled_append] at hrest ⊢
    rw [unlabelled_log (e.marginsLead_pieces o .statement) hr hs]
    exact congrArg _ hrest

end Renderer

end Pseudocode
