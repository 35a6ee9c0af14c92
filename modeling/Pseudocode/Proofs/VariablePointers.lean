import Pseudocode.Proofs.LabelInsertion
import Pseudocode.Proofs.Payload

/-! Replacing the pointers of variables leaves every node what it is, so that
only the texts of variables can tell a script from its rewritten form. -/

namespace Pseudocode

mutual

/-- An expression with the pointers of its variables replaced, at whatever depth
they stand. -/
def Expr.mapVariables (f : PropertyPointer → PropertyPointer) : Expr → Expr
  | ⟨index, node⟩ => ⟨index, node.mapVariables f⟩

def Node.mapVariables (f : PropertyPointer → PropertyPointer) : Node Expr → Node Expr
  | .var kind pointer => .var kind (f pointer)
  | .text source => .text (mapVariablesInSource f source)
  | .struct type size fields => .struct type size (mapVariablesIn f fields)
  | .array inner elements => .array inner (mapVariablesIn f elements)
  | .set inner elements => .set inner (mapVariablesIn f elements)
  | .map key value elements => .map key value (mapVariablesIn f elements)
  | .fill kind target elements => .fill kind (target.mapVariables f) (mapVariablesIn f elements)
  | .assign value target assignment =>
    .assign value (target.mapVariables f) (assignment.mapVariables f)
  | .letKind kind target assignment =>
    .letKind kind (target.mapVariables f) (assignment.mapVariables f)
  | .persistentLet destination assignment => .persistentLet destination (assignment.mapVariables f)
  | .memberOf member owner => .memberOf member (owner.mapVariables f)
  | .elementOf container position => .elementOf (container.mapVariables f) (position.mapVariables f)
  | .context kind object offset result member =>
    .context kind (object.mapVariables f) offset result (member.mapVariables f)
  | .wrapper kind operand => .wrapper kind (operand.mapVariables f)
  | .classCast kind class_ operand => .classCast kind class_ (operand.mapVariables f)
  | .convert conversion operand => .convert conversion (operand.mapVariables f)
  | .virtualCall kind function arguments => .virtualCall kind function (mapVariablesIn f arguments)
  | .finalCall kind function arguments => .finalCall kind function (mapVariablesIn f arguments)
  | .changeDelegate change delegate operand =>
    .changeDelegate change (delegate.mapVariables f) (operand.mapVariables f)
  | .clearDelegate delegate => .clearDelegate (delegate.mapVariables f)
  | .callDelegate signature delegate arguments =>
    .callDelegate signature (delegate.mapVariables f) (mapVariablesIn f arguments)
  | .bindDelegate function delegate object =>
    .bindDelegate function (delegate.mapVariables f) (object.mapVariables f)
  | .ret operand => .ret (operand.mapVariables f)
  | .jumpIfNot offset condition => .jumpIfNot offset (condition.mapVariables f)
  | .computedJump offset => .computedJump (offset.mapVariables f)
  | .popFlowIfNot condition => .popFlowIfNot (condition.mapVariables f)
  | .switch endOffset index default_ cases =>
    .switch endOffset (index.mapVariables f) (default_.mapVariables f) (mapVariablesInCases f cases)
  | .assert line debug condition => .assert line debug (condition.mapVariables f)
  | .skip offset operand => .skip offset (operand.mapVariables f)
  | .abortIfNot condition => .abortIfNot (condition.mapVariables f)
  | node => node

def mapVariablesInSource (f : PropertyPointer → PropertyPointer) : Option Expr → Option Expr
  | none => none
  | some e => some (e.mapVariables f)

def mapVariablesIn (f : PropertyPointer → PropertyPointer) : List Expr → List Expr
  | [] => []
  | e :: rest => e.mapVariables f :: mapVariablesIn f rest

def mapVariablesInCases (f : PropertyPointer → PropertyPointer) :
    List (SwitchCase Expr) → List (SwitchCase Expr)
  | [] => []
  | ⟨key, nextOffset, term⟩ :: rest =>
    ⟨key.mapVariables f, nextOffset, term.mapVariables f⟩ :: mapVariablesInCases f rest

end

variable (f : PropertyPointer → PropertyPointer)

theorem mapVariablesIn_eq (es : List Expr) :
    mapVariablesIn f es = es.map (Expr.mapVariables f) := by
  induction es with
  | nil => rfl
  | cons e es ih => rw [mapVariablesIn, ih, List.map_cons]

def SwitchCase.mapVariables (c : SwitchCase Expr) : SwitchCase Expr :=
  ⟨c.key.mapVariables f, c.nextOffset, c.term.mapVariables f⟩

theorem mapVariablesInCases_eq (cases : List (SwitchCase Expr)) :
    mapVariablesInCases f cases = cases.map (SwitchCase.mapVariables f) := by
  induction cases with
  | nil => rfl
  | cons c cases ih => rw [mapVariablesInCases, ih, List.map_cons]; rfl

theorem Node.children_mapVariables (node : Node Expr) :
    (node.mapVariables f).children = node.children.map (Expr.mapVariables f) := by
  cases node
  case text source => cases source <;> rfl
  case switch endOffset index default_ cases =>
    simp [Node.mapVariables, Node.children, mapVariablesInCases_eq, List.flatMap_map,
      List.map_flatMap, SwitchCase.mapVariables]
  all_goals simp [Node.mapVariables, Node.children, mapVariablesIn_eq]

section observations

variable (node : Node Expr)

@[simp] theorem Node.truth?_mapVariables : (node.mapVariables f).truth? = node.truth? := by
  cases node <;> rfl

@[simp] theorem Node.int?_mapVariables : (node.mapVariables f).int? = node.int? := by
  cases node <;> rfl

@[simp] theorem Node.isArrayLiteral_mapVariables :
    (node.mapVariables f).isArrayLiteral = node.isArrayLiteral := by
  cases node <;> rfl

@[simp] theorem Node.isDelegateReceiver_mapVariables :
    (node.mapVariables f).isDelegateReceiver = node.isDelegateReceiver := by
  cases node <;> try rfl
  case var kind pointer => cases kind <;> rfl
  case context kind object offset result member => cases kind <;> rfl

@[simp] theorem Node.isNothing_mapVariables : (node.mapVariables f).isNothing = node.isNothing := by
  cases node <;> rfl

@[simp] theorem Node.isCall_mapVariables : (node.mapVariables f).isCall = node.isCall := by
  cases node <;> rfl

@[simp] theorem Node.opcode_mapVariables : (node.mapVariables f).opcode = node.opcode := by
  cases node <;> try rfl
  case fill kind target elements => cases kind <;> rfl
  case letKind kind target assignment => cases kind <;> rfl
  case context kind object offset result member => cases kind <;> rfl
  case wrapper kind operand => cases kind <;> rfl
  case classCast kind class_ operand => cases kind <;> rfl
  case virtualCall kind function arguments => cases kind <;> rfl
  case finalCall kind function arguments => cases kind <;> rfl
  case changeDelegate change delegate operand => cases change <;> rfl

@[simp] theorem constantOffset?_mapVariables :
    constantOffset? (node.mapVariables f) = constantOffset? node := by
  cases node <;> rfl

end observations

@[simp] theorem Expr.node_mapVariables (e : Expr) :
    (e.mapVariables f).node = e.node.mapVariables f := by
  obtain ⟨index, node⟩ := e
  rfl

@[simp] theorem Expr.index_mapVariables (e : Expr) : (e.mapVariables f).index = e.index := by
  obtain ⟨index, node⟩ := e
  rfl

@[simp] theorem Expr.isCall_mapVariables (e : Expr) : (e.mapVariables f).isCall = e.isCall := by
  simp [Expr.isCall]

theorem jumpOffset?_mapVariables (node : Node Expr) :
    jumpOffset? (node.mapVariables f) = jumpOffset? node := by
  cases node <;> try rfl
  case computedJump offset => simp [Node.mapVariables, jumpOffset?]

def Part.mapVariables : Part → Part
  | .operand mode e => .operand mode (e.mapVariables f)
  | p => p

@[simp] theorem Part.mapVariables_text (s : String) : (Part.text s).mapVariables f = .text s := rfl

@[simp] theorem Part.mapVariables_margin : Part.margin.mapVariables f = .margin := rfl

@[simp] theorem Part.mapVariables_operand (mode : RenderMode) (e : Expr) :
    (Part.operand mode e).mapVariables f = .operand mode (e.mapVariables f) := rfl

@[simp] theorem RenderMode.map_inStatement (mode : RenderMode) (ps : List Part) :
    (mode.inStatement ps).map (Part.mapVariables f) =
      mode.inStatement (ps.map (Part.mapVariables f)) := by
  cases mode <;> rfl

@[simp] theorem RenderMode.map_wrap (mode : RenderMode) (ps : List Part) :
    (mode.wrap ps).map (Part.mapVariables f) = mode.wrap (ps.map (Part.mapVariables f)) := by
  simp [RenderMode.wrap]

@[simp] theorem map_ite_parts (b : Prop) [Decidable b] (ps qs : List Part) :
    (if b then ps else qs).map (Part.mapVariables f) =
      if b then ps.map (Part.mapVariables f) else qs.map (Part.mapVariables f) :=
  apply_ite (List.map (Part.mapVariables f)) b ps qs

theorem argumentParts_map (lines : Bool) (es : List Expr) :
    argumentParts lines (es.map (Expr.mapVariables f)) =
      (argumentParts lines es).map (Part.mapVariables f) := by
  induction es with
  | nil => rfl
  | cons e es ih => simp [argumentParts, ih]

@[simp] theorem callParts_map (callee : String) (es : List Expr) :
    callParts callee (es.map (Expr.mapVariables f)) =
      (callParts callee es).map (Part.mapVariables f) := by
  simp [callParts, onLines, argumentParts_map]

theorem elementParts_map (es : List Expr) :
    elementParts (es.map (Expr.mapVariables f)) = (elementParts es).map (Part.mapVariables f) := by
  induction es with
  | nil => rfl
  | cons e es ih => simp [elementParts, ih]

theorem pairParts_map (es : List Expr) :
    pairParts (es.map (Expr.mapVariables f)) = (pairParts es).map (Part.mapVariables f) := by
  induction es using pairParts.induct with
  | case1 => rfl
  | case2 key => simp [pairParts]
  | case3 key value rest ih => simp [pairParts, ih]

@[simp] theorem containerParts_map (kind : ContainerKind) (es : List Expr) :
    containerParts kind (es.map (Expr.mapVariables f)) =
      (containerParts kind es).map (Part.mapVariables f) := by
  simp [containerParts, elementParts_map, pairParts_map]

@[simp] theorem fieldParts_map (es : List Expr) :
    fieldParts (es.map (Expr.mapVariables f)) = (fieldParts es).map (Part.mapVariables f) := by
  induction es with
  | nil => rfl
  | cons e es ih => simp [fieldParts, ih]

@[simp] theorem assignmentParts_map (mode : RenderMode) (target assignment : Expr) :
    assignmentParts mode (target.mapVariables f) (assignment.mapVariables f) =
      (assignmentParts mode target assignment).map (Part.mapVariables f) := by
  simp [assignmentParts]

theorem separated_map (s : String) (es : List Expr) :
    (es.map (Part.inside ∘ Expr.mapVariables f)).intersperse (.text s) =
      ((es.map Part.inside).intersperse (.text s)).map (Part.mapVariables f) := by
  induction es with
  | nil => rfl
  | cons e es ih =>
    cases es with
    | nil => rfl
    | cons e' es => simpa [List.intersperse] using ih

theorem isTernary_map (cases : List (SwitchCase Expr)) :
    isTernary (cases.map (SwitchCase.mapVariables f)) = isTernary cases := by
  simp [isTernary, SwitchCase.mapVariables, Function.comp_def]

theorem ternaryTerms_map (cases : List (SwitchCase Expr)) :
    ternaryTerms (cases.map (SwitchCase.mapVariables f)) =
      (ternaryTerms cases).map (Expr.mapVariables f) := by
  simp [ternaryTerms, branches, List.filter_map, SwitchCase.mapVariables, Function.comp_def]

theorem caseParts_map (c : SwitchCase Expr) :
    caseParts (c.mapVariables f) = (caseParts c).map (Part.mapVariables f) := by
  cases h : c.key.node.int? <;> simp [caseParts, SwitchCase.mapVariables, h]

/-- A node with other variables is laid out as before if the variables are written
as before. -/
theorem Node.layout_mapVariables {o o' : RenderOptions}
    (h : ∀ p, (f p).variableText o' = p.variableText o) (mode : RenderMode) (node : Node Expr) :
    (node.mapVariables f).layout o' mode = (node.layout o mode).map (Part.mapVariables f) := by
  cases node
  case text source => cases source <;> rfl
  case context kind object offset result member =>
    cases kind
    case failSilent => cases mode <;> simp [Node.mapVariables, Node.layout]
    all_goals simp [Node.mapVariables, Node.layout]
  case convert conversion operand => cases conversion <;> simp [Node.mapVariables, Node.layout]
  case finalCall kind function arguments =>
    cases kind <;> simp [Node.mapVariables, Node.layout, mapVariablesIn_eq]
  case computedJump offset =>
    cases hoffset : constantOffset? offset.node <;> simp [Node.mapVariables, Node.layout, hoffset]
  case switch endOffset index default_ cases =>
    have hterms := separated_map f " : " (ternaryTerms cases)
    have hcases : (cases.map (SwitchCase.mapVariables f)).flatMap caseParts =
        (cases.flatMap caseParts).map (Part.mapVariables f) := by
      simp [List.flatMap_map, List.map_flatMap, caseParts_map]
    simp [Node.mapVariables, Node.layout, mapVariablesInCases_eq, isTernary_map, ternaryTerms_map,
      hcases, hterms]
  all_goals simp [Node.mapVariables, Node.layout, h, mapVariablesIn_eq]

end Pseudocode
