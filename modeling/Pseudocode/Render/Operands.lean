import Pseudocode.Render.Layout

/-! The operands that the layout of a node names. All of them are operands of
the node, each as often as it stands there at most, so that rendering comes to
an end. -/

namespace Pseudocode

def Part.operand? : Part → Option Expr
  | .operand _ e => some e
  | _ => none

def operandsOf (parts : List Part) : List Expr := parts.filterMap Part.operand?

@[simp] theorem operandsOf_nil : operandsOf [] = [] := rfl

@[simp] theorem operandsOf_append (ps qs : List Part) :
    operandsOf (ps ++ qs) = operandsOf ps ++ operandsOf qs :=
  List.filterMap_append

@[simp] theorem operandsOf_text (s : String) (ps : List Part) :
    operandsOf (.text s :: ps) = operandsOf ps :=
  rfl

@[simp] theorem operandsOf_margin (ps : List Part) : operandsOf (.margin :: ps) = operandsOf ps :=
  rfl

@[simp] theorem operandsOf_operand (mode : RenderMode) (e : Expr) (ps : List Part) :
    operandsOf (.operand mode e :: ps) = e :: operandsOf ps := rfl

theorem mem_operandsOf {e : Expr} {ps : List Part} :
    e ∈ operandsOf ps ↔ ∃ mode, .operand mode e ∈ ps := by
  constructor
  · intro h
    obtain ⟨p, hp, he⟩ := List.mem_filterMap.mp h
    cases p with
    | operand mode e' => exact ⟨mode, by cases he; exact hp⟩
    | text _ => cases he
    | margin => cases he
  · rintro ⟨mode, h⟩
    exact List.mem_filterMap.mpr ⟨_, h, rfl⟩

@[simp] theorem operandsOf_inStatement_text (mode : RenderMode) (s : String) :
    operandsOf (mode.inStatement [.text s]) = [] := by
  cases mode <;> rfl

@[simp] theorem operandsOf_inStatement_margin (mode : RenderMode) :
    operandsOf (mode.inStatement [.margin]) = [] := by
  cases mode <;> rfl

@[simp] theorem operandsOf_wrap (mode : RenderMode) (ps : List Part) :
    operandsOf (mode.wrap ps) = operandsOf ps := by
  simp [RenderMode.wrap]

@[simp] theorem operandsOf_texts (b : Prop) [Decidable b] (s : String) :
    operandsOf (if b then [] else [.text s]) = [] := by
  split <;> rfl

@[simp] theorem operandsOf_texts' (b : Prop) [Decidable b] (s : String) :
    operandsOf (if b then [.text s] else []) = [] := by
  split <;> rfl

@[simp] theorem operandsOf_argumentParts (lines : Bool) (es : List Expr) :
    operandsOf (argumentParts lines es) = es := by
  induction es with
  | nil => rfl
  | cons e es ih => simp [argumentParts, ih]

@[simp] theorem operandsOf_callParts (callee : String) (es : List Expr) :
    operandsOf (callParts callee es) = es := by
  simp [callParts]

@[simp] theorem operandsOf_elementParts (es : List Expr) : operandsOf (elementParts es) = es := by
  induction es with
  | nil => rfl
  | cons e es ih => simp [elementParts, ih]

@[simp] theorem operandsOf_pairParts (es : List Expr) : operandsOf (pairParts es) = es := by
  induction es using pairParts.induct with
  | case1 => rfl
  | case2 key => rfl
  | case3 key value rest ih => simp [pairParts, ih]

@[simp] theorem operandsOf_containerParts (kind : ContainerKind) (es : List Expr) :
    operandsOf (containerParts kind es) = es := by
  cases kind <;> simp [containerParts]

@[simp] theorem operandsOf_fieldParts (es : List Expr) : operandsOf (fieldParts es) = es := by
  induction es with
  | nil => rfl
  | cons e es ih => simp [fieldParts, ih]

@[simp] theorem operandsOf_assignmentParts (mode : RenderMode) (target assignment : Expr) :
    operandsOf (assignmentParts mode target assignment) = [target, assignment] := by
  simp [assignmentParts]

@[simp] theorem operandsOf_intersperse (s : String) (es : List Expr) :
    operandsOf ((es.map Part.inside).intersperse (.text s)) = es := by
  induction es with
  | nil => rfl
  | cons e es ih =>
    cases es with
    | nil => rfl
    | cons e' es => simpa [List.intersperse] using ih

theorem operandsOf_caseParts_sublist (c : SwitchCase Expr) :
    (operandsOf (caseParts c)).Sublist [c.key, c.term] := by
  cases h : c.key.node.int? <;> simp [caseParts, h]

theorem operandsOf_cases_sublist (cases : List (SwitchCase Expr)) :
    (operandsOf (cases.flatMap caseParts)).Sublist (cases.flatMap fun c => [c.key, c.term]) := by
  induction cases with
  | nil => exact .slnil
  | cons c cases ih => simpa using (operandsOf_caseParts_sublist c).append ih

/-- The operands of a node are rendered in their order, though not all of them;
only a switch that is a choice between two values moves them. -/
theorem operandsOf_layout (o : RenderOptions) (mode : RenderMode) (node : Node Expr) :
    (operandsOf (node.layout o mode)).Sublist node.children ∨
      ∃ endOffset index default_ cases, node = .switch endOffset index default_ cases ∧
        isTernary cases ∧
        operandsOf (node.layout o mode) = index :: ternaryTerms cases := by
  cases node
  case switch endOffset index default_ cases =>
    by_cases h : isTernary cases = true
    · exact .inr ⟨endOffset, index, default_, cases, rfl, h, by simp [Node.layout, h]⟩
    · left
      simpa [Node.layout, h, Node.children] using operandsOf_cases_sublist cases
  case atom a =>
    left
    by_cases h : a = .endOfScript <;> simp [Node.layout, h]
  case text source =>
    left
    cases source <;> simp [Node.layout, Node.children]
  case context kind object offset result member =>
    left
    cases kind <;> cases mode <;> simp [Node.layout, Node.children, RenderMode.inStatement]
  case convert conversion operand =>
    left
    cases conversion <;> simp [Node.layout, Node.children]
  case finalCall kind function arguments =>
    left
    cases kind
    case onSelf => by_cases h : arguments.isEmpty <;> simp [Node.layout, Node.children, h]
    all_goals simp [Node.layout, Node.children]
  case changeDelegate change delegate operand =>
    left
    by_cases h : delegate.node.isDelegateReceiver <;> simp [Node.layout, Node.children, h]
  case callDelegate signature delegate arguments =>
    left
    by_cases h : delegate.node.isDelegateReceiver <;> simp [Node.layout, Node.children, h]
  case computedJump offset =>
    left
    cases h : constantOffset? offset.node <;> simp [Node.layout, Node.children, h]
  all_goals
    left
    simp [Node.layout, Node.children]

theorem ternaryTerms_subset (cases : List (SwitchCase Expr)) :
    ternaryTerms cases ⊆ cases.map (·.term) := by
  intro e he
  obtain ⟨c, hc, rfl⟩ : ∃ c ∈ cases, c.term = e := by
    simp only [ternaryTerms, branches, List.mem_append, List.mem_map, List.mem_filter] at he
    rcases he with ⟨c, ⟨hc, _⟩, he⟩ | ⟨c, ⟨hc, _⟩, he⟩ <;> exact ⟨c, hc, he⟩
  exact List.mem_map_of_mem hc

theorem operandsOf_layout_subset (o : RenderOptions) (mode : RenderMode) (node : Node Expr) :
    operandsOf (node.layout o mode) ⊆ node.children := by
  rcases operandsOf_layout o mode node with h | ⟨endOffset, index, default_, cases, rfl, _, h⟩
  · exact h.subset
  · intro e he
    rw [h] at he
    rcases List.mem_cons.mp he with rfl | he
    · simp [Node.children]
    · obtain ⟨c, hc, rfl⟩ := List.mem_map.mp (ternaryTerms_subset cases he)
      simp only [Node.children, List.cons_append, List.mem_cons, List.mem_append, List.mem_flatMap]
      exact .inr (.inl ⟨c, hc, by simp⟩)

end Pseudocode
