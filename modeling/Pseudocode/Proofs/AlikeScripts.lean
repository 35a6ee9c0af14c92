import Mathlib.Data.List.Forall2
import Pseudocode.Proofs.RenderLog

/-! Scripts that differ in what rendering does not read: sizes, types of
elements, where a switch ends, and so on, and the positions of nodes that
nothing jumps to. What nodes show of themselves is the same. -/

namespace Pseudocode

/-- Whether pointers name the same property: a bare name counts only where there
is no path. -/
structure PropertyPointer.SameName (p q : PropertyPointer) : Prop where
  path : p.path? = q.path?
  legacyName : p.path? = none → p.legacyName? = q.legacyName?

theorem PropertyPointer.SameName.refl (p : PropertyPointer) : p.SameName p := ⟨rfl, fun _ => rfl⟩

theorem PropertyPointer.SameName.of_path {segments : List String} {name name' : Option String}
    {member member' : Bool} :
    SameName ⟨some segments, name, member⟩ ⟨some segments, name', member'⟩ where
  path := rfl
  legacyName h := by cases h

inductive SwitchCase.Alike {ε : Type} (R : ε → ε → Prop) : SwitchCase ε → SwitchCase ε → Prop
  | mk {key key' term term' : ε} {next next' : UInt32} :
      R key key' → R term term' → Alike R ⟨key, next, term⟩ ⟨key', next', term'⟩

/-- Whether nodes agree in all that is shown of them, with operands that are
related. What a constructor below has in two versions, one with a prime, may
differ as far as its hypotheses allow. -/
inductive Node.Alike {ε : Type} (R : ε → ε → Prop) : Node ε → Node ε → Prop
  | leaf {node : Node ε} : node.children = [] → Alike R node node
  | var {kind : VariableKind} {p p' : PropertyPointer} :
      p.SameName p' → Alike R (.var kind p) (.var kind p')
  | propertyConst {p p' : PropertyPointer} :
      p.SameName p' → Alike R (.propertyConst p) (.propertyConst p')
  | bitField {inner inner' : PropertyPointer} {value : UInt8} :
      Alike R (.bitField inner value) (.bitField inner' value)
  | text {source source' : ε} :
      R source source' → Alike R (.text (some source)) (.text (some source'))
  | struct {type : ObjectRef} {size size' : Int32} {fields fields' : List ε} :
      List.Forall₂ R fields fields' →
      Alike R (.struct type size fields) (.struct type size' fields')
  | array {inner inner' : PropertyPointer} {es es' : List ε} :
      List.Forall₂ R es es' → Alike R (.array inner es) (.array inner' es')
  | set {inner inner' : PropertyPointer} {es es' : List ε} :
      List.Forall₂ R es es' → Alike R (.set inner es) (.set inner' es')
  | map {key key' value value' : PropertyPointer} {es es' : List ε} :
      List.Forall₂ R es es' → Alike R (.map key value es) (.map key' value' es')
  | fill {kind : ContainerKind} {target target' : ε} {es es' : List ε} : R target target' →
      List.Forall₂ R es es' → Alike R (.fill kind target es) (.fill kind target' es')
  | assign {value value' : PropertyPointer} {target target' assignment assignment' : ε} :
      R target target' → R assignment assignment' →
      Alike R (.assign value target assignment) (.assign value' target' assignment')
  | letKind {kind : LetKind} {target target' assignment assignment' : ε} :
      R target target' → R assignment assignment' →
      Alike R (.letKind kind target assignment) (.letKind kind target' assignment')
  | persistentLet {p p' : PropertyPointer} {assignment assignment' : ε} :
      p.SameName p' → R assignment assignment' →
      Alike R (.persistentLet p assignment) (.persistentLet p' assignment')
  | memberOf {p p' : PropertyPointer} {owner owner' : ε} :
      p.SameName p' → R owner owner' → Alike R (.memberOf p owner) (.memberOf p' owner')
  | elementOf {container container' position position' : ε} :
      R container container' → R position position' →
      Alike R (.elementOf container position) (.elementOf container' position')
  | context {kind : ContextKind} {object object' member member' : ε} {offset offset' : UInt32}
      {result result' : Option PropertyPointer} : R object object' → R member member' → Alike R
      (.context kind object offset result member) (.context kind object' offset' result' member')
  | wrapper {kind : WrapperKind} {e e' : ε} : R e e' → Alike R (.wrapper kind e) (.wrapper kind e')
  | classCast {kind : ClassCastKind} {class_ : ObjectRef} {e e' : ε} :
      R e e' → Alike R (.classCast kind class_ e) (.classCast kind class_ e')
  | convert {conversion : Conversion} {e e' : ε} :
      R e e' → Alike R (.convert conversion e) (.convert conversion e')
  | virtualCall {kind : VirtualCallKind} {function : String} {es es' : List ε} :
      List.Forall₂ R es es' →
      Alike R (.virtualCall kind function es) (.virtualCall kind function es')
  | finalCall {kind : FinalCallKind} {function : ObjectRef} {es es' : List ε} :
      List.Forall₂ R es es' → Alike R (.finalCall kind function es) (.finalCall kind function es')
  | changeDelegate {change : DelegateChange} {delegate delegate' e e' : ε} : R delegate delegate' →
      R e e' → Alike R (.changeDelegate change delegate e) (.changeDelegate change delegate' e')
  | clearDelegate {delegate delegate' : ε} :
      R delegate delegate' → Alike R (.clearDelegate delegate) (.clearDelegate delegate')
  | callDelegate {signature signature' : ObjectRef} {delegate delegate' : ε} {es es' : List ε} :
      R delegate delegate' → List.Forall₂ R es es' →
      Alike R (.callDelegate signature delegate es) (.callDelegate signature' delegate' es')
  | bindDelegate {function : String} {delegate delegate' object object' : ε} :
      R delegate delegate' → R object object' →
      Alike R (.bindDelegate function delegate object) (.bindDelegate function delegate' object')
  | ret {e e' : ε} : R e e' → Alike R (.ret e) (.ret e')
  | jumpIfNot {offset : UInt32} {e e' : ε} :
      R e e' → Alike R (.jumpIfNot offset e) (.jumpIfNot offset e')
  | computedJump {e e' : ε} : R e e' → Alike R (.computedJump e) (.computedJump e')
  | pushFlow {offset offset' : UInt32} : Alike R (.pushFlow offset) (.pushFlow offset')
  | popFlowIfNot {e e' : ε} : R e e' → Alike R (.popFlowIfNot e) (.popFlowIfNot e')
  | switch {endOffset endOffset' : UInt32}
      {index index' default_ default' : ε} {cases cases' : List (SwitchCase ε)} :
      R index index' → R default_ default' → List.Forall₂ (SwitchCase.Alike R) cases cases' →
      Alike R (.switch endOffset index default_ cases) (.switch endOffset' index' default' cases')
  | assert {line line' : UInt16} {debug debug' : Bool} {e e' : ε} :
      R e e' → Alike R (.assert line debug e) (.assert line' debug' e')
  | skip {offset offset' : UInt32} {e e' : ε} : R e e' → Alike R (.skip offset e) (.skip offset' e')
  | instrumentation {eventType eventType' : UInt8} {eventName eventName' : Option String} :
      Alike R (.instrumentation eventType eventName) (.instrumentation eventType' eventName')
  | transact {transaction transaction' : Int32} {offset offset' : UInt32} :
      Alike R (.transact transaction offset) (.transact transaction' offset')
  | stopTransact {transaction transaction' : Int32} {mode mode' : UInt8} :
      Alike R (.stopTransact transaction mode) (.stopTransact transaction' mode')
  | abortIfNot {e e' : ε} : R e e' → Alike R (.abortIfNot e) (.abortIfNot e')

/-- Whether positions are the same, or no targets both. -/
def sameLabel (targets : List UInt32) (i j : UInt32) : Prop := i = j ∨ i ∉ targets ∧ j ∉ targets

/-- Whether expressions differ, at whatever depth, in nothing but metadata and
positions that are no targets. -/
inductive Expr.Alike (targets : List UInt32) : Expr → Expr → Prop
  | mk {i j : UInt32} {node node' : Node Expr} : sameLabel targets i j →
      Node.Alike (Alike targets) node node' → Alike targets ⟨i, node⟩ ⟨j, node'⟩

variable {targets : List UInt32}

theorem Node.Alike.refl {ε : Type} {R : ε → ε → Prop} {node : Node ε}
    (h : ∀ c ∈ node.children, R c c) : Node.Alike R node node := by
  have hlist := List.forall₂_same.mpr h
  cases node with
  | var => exact .var (.refl _)
  | propertyConst => exact .propertyConst (.refl _)
  | text source => cases source with
    | none => exact .leaf rfl
    | some source => exact .text (h source List.mem_cons_self)
  | struct => exact .struct hlist
  | array => exact .array hlist
  | set => exact .set hlist
  | map => exact .map hlist
  | virtualCall => exact .virtualCall hlist
  | finalCall => exact .finalCall hlist
  | fill =>
    obtain _ | ⟨ht, hs⟩ := hlist
    exact .fill ht hs
  | callDelegate =>
    obtain _ | ⟨hd, hs⟩ := hlist
    exact .callDelegate hd hs
  | assign =>
    obtain _ | ⟨ht, _ | ⟨ha, -⟩⟩ := hlist
    exact .assign ht ha
  | letKind =>
    obtain _ | ⟨ht, _ | ⟨ha, -⟩⟩ := hlist
    exact .letKind ht ha
  | elementOf =>
    obtain _ | ⟨hc, _ | ⟨hp, -⟩⟩ := hlist
    exact .elementOf hc hp
  | context =>
    obtain _ | ⟨ho, _ | ⟨hm, -⟩⟩ := hlist
    exact .context ho hm
  | changeDelegate =>
    obtain _ | ⟨hd, _ | ⟨hr, -⟩⟩ := hlist
    exact .changeDelegate hd hr
  | bindDelegate =>
    obtain _ | ⟨hd, _ | ⟨ho, -⟩⟩ := hlist
    exact .bindDelegate hd ho
  | switch endOffset index default_ cases =>
    refine .switch (h index (by simp [children])) (h default_ (by simp [children]))
      (List.forall₂_same.mpr ?_)
    rintro ⟨key, next, term⟩ hc
    have hmem (x : ε) (hx : x = key ∨ x = term) :
        x ∈ (Node.switch endOffset index default_ cases).children := by
      simp only [children, List.cons_append, List.mem_cons, List.mem_append, List.mem_flatMap]
      exact .inr (.inl ⟨_, hc, by simpa using hx⟩)
    exact .mk (h key (hmem key (.inl rfl))) (h term (hmem term (.inr rfl)))
  | persistentLet => exact .persistentLet (.refl _) (h _ List.mem_cons_self)
  | memberOf => exact .memberOf (.refl _) (h _ List.mem_cons_self)
  | wrapper => exact .wrapper (h _ List.mem_cons_self)
  | classCast => exact .classCast (h _ List.mem_cons_self)
  | convert => exact .convert (h _ List.mem_cons_self)
  | clearDelegate => exact .clearDelegate (h _ List.mem_cons_self)
  | ret => exact .ret (h _ List.mem_cons_self)
  | jumpIfNot => exact .jumpIfNot (h _ List.mem_cons_self)
  | computedJump => exact .computedJump (h _ List.mem_cons_self)
  | popFlowIfNot => exact .popFlowIfNot (h _ List.mem_cons_self)
  | assert => exact .assert (h _ List.mem_cons_self)
  | skip => exact .skip (h _ List.mem_cons_self)
  | abortIfNot => exact .abortIfNot (h _ List.mem_cons_self)
  | _ => exact .leaf rfl

theorem Expr.Alike.refl (e : Expr) : e.Alike targets e := by
  induction e using Expr.induction with
  | h e ih =>
    obtain ⟨index, node⟩ := e
    exact .mk (.inl rfl) (Node.Alike.refl ih)

theorem PropertyPointer.SameName.text {p q : PropertyPointer} (h : p.SameName q) :
    p.text = q.text := by
  obtain ⟨path, legacyName, member⟩ := p
  obtain ⟨path', legacyName', member'⟩ := q
  obtain rfl : path = path' := h.path
  cases path with
  | some segments => rfl
  | none => exact congrArg (·.getD "") (h.legacyName rfl)

/-- Whether nodes look the same to the node above them. -/
structure Node.Resembles (node node' : Node Expr) : Prop where
  truth : node.truth? = node'.truth?
  int : node.int? = node'.int?
  offset : constantOffset? node = constantOffset? node'
  call : node.isCall = node'.isCall
  nothing : node.isNothing = node'.isNothing
  arrayLiteral : node.isArrayLiteral = node'.isArrayLiteral
  receiver : node.isDelegateReceiver = node'.isDelegateReceiver

theorem Node.Alike.resembles {R : Expr → Expr → Prop} {node node' : Node Expr}
    (h : Node.Alike R node node') : node.Resembles node' := by
  cases h
  case var kind p p' h => cases kind <;> constructor <;> rfl
  case context kind object object' member member' offset offset' result result' h h' =>
    cases kind <;> constructor <;> rfl
  all_goals constructor <;> rfl

theorem Expr.Alike.resembles {e e' : Expr} (h : e.Alike targets e') : e.node.Resembles e'.node := by
  obtain ⟨-, h⟩ := h
  exact h.resembles

end Pseudocode
