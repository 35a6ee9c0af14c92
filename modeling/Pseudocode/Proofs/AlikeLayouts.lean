import Pseudocode.Proofs.AlikeScripts

/-! Scripts that differ in metadata are laid out part for part alike. -/

namespace Pseudocode

variable {targets : List UInt32}

inductive Part.Alike (targets : List UInt32) : Part → Part → Prop
  | text (s : String) : Alike targets (.text s) (.text s)
  | margin : Alike targets .margin .margin
  | operand {mode : RenderMode} {e e' : Expr} :
      e.Alike targets e' → Alike targets (.operand mode e) (.operand mode e')

abbrev PartsAlike (targets : List UInt32) : List Part → List Part → Prop :=
  List.Forall₂ (Part.Alike targets)

namespace PartsAlike

variable {ps ps' qs qs' : List Part} {es es' : List Expr} {cases cases' : List (SwitchCase Expr)}

theorem append (hp : PartsAlike targets ps ps') (hq : PartsAlike targets qs qs') :
    PartsAlike targets (ps ++ qs) (ps' ++ qs') :=
  List.rel_append hp hq

theorem text (s : String) (h : PartsAlike targets ps ps') :
    PartsAlike targets (.text s :: ps) (.text s :: ps') :=
  .cons (.text s) h

theorem inside {e e' : Expr} (he : e.Alike targets e') (h : PartsAlike targets ps ps') :
    PartsAlike targets (.inside e :: ps) (.inside e' :: ps') :=
  .cons (.operand he) h

theorem of_no_operands {ps : List Part} (h : operandsOf ps = []) : PartsAlike targets ps ps := by
  refine List.forall₂_same.mpr fun p hp => ?_
  cases p with
  | text s => exact .text s
  | margin => exact .margin
  | operand mode e =>
    have he : e ∈ operandsOf ps := mem_operandsOf.mpr ⟨mode, hp⟩
    rw [h] at he
    cases he

theorem wrap (mode : RenderMode) (h : PartsAlike targets ps ps') :
    PartsAlike targets (mode.wrap ps) (mode.wrap ps') :=
  ((of_no_operands (by simp)).append h).append (of_no_operands (by simp))

theorem isEmpty_eq (h : List.Forall₂ (Expr.Alike targets) es es') : es'.isEmpty = es.isEmpty := by
  cases h <;> rfl

theorem separator (s : String) (h : List.Forall₂ (Expr.Alike targets) es es') :
    PartsAlike targets (if es.isEmpty then [] else [.text s])
      (if es'.isEmpty then [] else [.text s]) := by
  rw [isEmpty_eq h]
  exact of_no_operands (by simp)

theorem argumentParts (lines : Bool) (h : List.Forall₂ (Expr.Alike targets) es es') :
    PartsAlike targets (Pseudocode.argumentParts lines es)
      (Pseudocode.argumentParts lines es') := by
  induction h with
  | nil => exact .nil
  | cons he hrest ih =>
    exact ((of_no_operands (by simp)).append (.inside he (separator ", " hrest))).append ih

theorem callParts (callee : String) (h : List.Forall₂ (Expr.Alike targets) es es') :
    PartsAlike targets (Pseudocode.callParts callee es) (Pseudocode.callParts callee es') := by
  have hlines : onLines es' = onLines es := by simp only [onLines, h.length_eq]
  simp only [Pseudocode.callParts, hlines]
  exact .text callee (.text "(" ((argumentParts (onLines es) h).append (.text ")" .nil)))

theorem elementParts (h : List.Forall₂ (Expr.Alike targets) es es') :
    PartsAlike targets (Pseudocode.elementParts es) (Pseudocode.elementParts es') := by
  induction h with
  | nil => exact .nil
  | cons he hrest ih => exact .text " " (.inside he ((separator "," hrest).append ih))

theorem pairParts (h : List.Forall₂ (Expr.Alike targets) es es') :
    PartsAlike targets (Pseudocode.pairParts es) (Pseudocode.pairParts es') := by
  induction es using pairParts.induct generalizing es' with
  | case1 =>
    cases h
    exact .nil
  | case2 key =>
    obtain _ | ⟨hkey, ⟨⟩⟩ := h
    exact .text " " (.inside hkey .nil)
  | case3 key value rest ih =>
    obtain _ | ⟨hkey, _ | ⟨hvalue, hrest⟩⟩ := h
    exact .text " "
      (.inside hkey (.text ": " (.inside hvalue ((separator "," hrest).append (ih hrest)))))

theorem containerParts (kind : ContainerKind) (h : List.Forall₂ (Expr.Alike targets) es es') :
    PartsAlike targets (Pseudocode.containerParts kind es)
      (Pseudocode.containerParts kind es') := by
  have hbody : PartsAlike targets
      (if kind = .map then Pseudocode.pairParts es else Pseudocode.elementParts es)
      (if kind = .map then Pseudocode.pairParts es' else Pseudocode.elementParts es') := by
    split
    · exact pairParts h
    · exact elementParts h
  simp only [Pseudocode.containerParts, isEmpty_eq h]
  exact .text _ (hbody.append (.text _ .nil))

theorem fieldParts (h : List.Forall₂ (Expr.Alike targets) es es') :
    PartsAlike targets (Pseudocode.fieldParts es) (Pseudocode.fieldParts es') := by
  induction h with
  | nil => exact .nil
  | cons he hrest ih =>
    simp only [Pseudocode.fieldParts, isEmpty_eq hrest, ← he.resembles.arrayLiteral]
    exact .inside he ((of_no_operands (by simp)).append ih)

theorem assignmentParts (mode : RenderMode) {target target' assignment assignment' : Expr}
    (ht : target.Alike targets target') (ha : assignment.Alike targets assignment') :
    PartsAlike targets (Pseudocode.assignmentParts mode target assignment)
      (Pseudocode.assignmentParts mode target' assignment') := by
  have hcall : assignment'.isCall = assignment.isCall := ha.resembles.call.symm
  simp only [Pseudocode.assignmentParts, hcall]
  exact ((of_no_operands (by simp)).append (.inside ht (.text " = " (.inside ha .nil)))).append
    (of_no_operands (by simp))

theorem caseParts {c c' : SwitchCase Expr} (h : c.Alike (Expr.Alike targets) c') :
    PartsAlike targets (Pseudocode.caseParts c) (Pseudocode.caseParts c') := by
  obtain ⟨hkey, hterm⟩ := h
  simp only [Pseudocode.caseParts, hkey.resembles.int]
  refine append ?_ (.text _ (.inside hterm (.text _ .nil)))
  split
  · exact .text _ .nil
  · exact .text _ (.inside hkey (.text _ .nil))

theorem intersperse (s : String) (h : List.Forall₂ (Expr.Alike targets) es es') :
    PartsAlike targets ((es.map Part.inside).intersperse (.text s))
      ((es'.map Part.inside).intersperse (.text s)) := by
  induction h with
  | nil => exact .nil
  | cons he hrest ih =>
    cases hrest with
    | nil => exact .inside he .nil
    | cons he' hrest' => exact .inside he (.text s ih)

theorem isTernary_eq (h : List.Forall₂ (SwitchCase.Alike (Expr.Alike targets)) cases cases') :
    isTernary cases' = isTernary cases := by
  have hkeys : (cases'.all fun c => c.key.node.truth?.isSome) = cases.all fun c =>
      c.key.node.truth?.isSome := by
    induction h with
    | nil => rfl
    | cons hc _ ih =>
      obtain ⟨hkey, -⟩ := hc
      simp only [List.all_cons, ih, hkey.resembles.truth]
  simp only [isTernary, h.length_eq, hkeys]

theorem branches_alike (key : Bool)
    (h : List.Forall₂ (SwitchCase.Alike (Expr.Alike targets)) cases cases') :
    List.Forall₂ (Expr.Alike targets) (branches key cases) (branches key cases') := by
  refine List.rel_map ?_ (List.rel_filter ?_ h)
  · rintro c c' ⟨-, hterm⟩
    exact hterm
  · rintro c c' ⟨hkey, -⟩
    simp only [hkey.resembles.truth]

theorem ternaryTerms_alike (h : List.Forall₂ (SwitchCase.Alike (Expr.Alike targets)) cases cases') :
    List.Forall₂ (Expr.Alike targets) (ternaryTerms cases) (ternaryTerms cases') :=
  List.rel_append (branches_alike true h) (branches_alike false h)

theorem switch {mode : RenderMode} {index index' default_ default' : Expr}
    (o : RenderOptions) (endOffset endOffset' : UInt32) (hindex : index.Alike targets index')
    (hdefault : default_.Alike targets default')
    (hcases : List.Forall₂ (SwitchCase.Alike (Expr.Alike targets)) cases cases') :
    PartsAlike targets (Node.layout o mode (.switch endOffset index default_ cases))
      (Node.layout o mode (.switch endOffset' index' default' cases')) := by
  have hbody : PartsAlike targets (cases.flatMap Pseudocode.caseParts)
      (cases'.flatMap Pseudocode.caseParts) :=
    List.rel_flatMap hcases fun _ _ hc => caseParts hc
  simp only [Node.layout, isTernary_eq hcases]
  split
  · exact (PartsAlike.inside hindex
      (.text " ? " (intersperse " : " (ternaryTerms_alike hcases)))).wrap mode
  · refine .append (.append (.append (of_no_operands (by simp)) ?cases) ?last)
      (of_no_operands (by simp))
    case cases => exact .text _ (.inside hindex (.text _ hbody))
    case last => exact .text _ (.inside hdefault (.text _ .nil))

end PartsAlike

theorem Node.Alike.layout {node node' : Node Expr} (h : Node.Alike (Expr.Alike targets) node node')
    (mode : RenderMode) :
    PartsAlike targets (node.layout ⟨false⟩ mode) (node'.layout ⟨false⟩ mode) := by
  cases h with
  | leaf hnode =>
    have hnone := operandsOf_layout_subset ⟨false⟩ mode node
    rw [hnode] at hnone
    exact .of_no_operands (List.subset_nil.mp hnone)
  | var hname =>
    simp only [Node.layout, PropertyPointer.variableText, hname.text]
    exact .text _ .nil
  | propertyConst hname =>
    simp only [Node.layout, hname.text]
    exact .text _ .nil
  | bitField => exact .text _ .nil
  | text h => exact .inside h .nil
  | struct hs => exact .text _ ((PartsAlike.fieldParts hs).append (.text _ .nil))
  | array hs => exact .containerParts .array hs
  | set hs => exact .containerParts .set hs
  | map hs => exact .containerParts .map hs
  | @fill kind _ _ _ _ ht hs =>
    exact (PartsAlike.inside ht (.text " = " (.containerParts kind hs))).wrap mode
  | assign ht ha => exact .assignmentParts mode ht ha
  | letKind ht ha => exact .assignmentParts mode ht ha
  | persistentLet hname h =>
    simp only [Node.layout, hname.text]
    refine PartsAlike.wrap mode (.append (.of_no_operands (by simp)) ?_)
    exact .text _ (.text _ (.inside h .nil))
  | memberOf hname h =>
    simp only [Node.layout, hname.text]
    exact .inside h (.text _ (.text _ .nil))
  | elementOf hc hp => exact .inside hc (.text _ (.inside hp (.text _ .nil)))
  | @context kind _ _ _ _ _ _ _ _ ho hm =>
    have hreached := PartsAlike.inside ho (.text "->" (.inside hm .nil))
    cases kind with
    | failSilent =>
      cases mode with
      | statement => exact hreached.wrap .statement
      | expression => exact .inside ho .nil
    | object =>
      exact ((PartsAlike.of_no_operands (by simp)).append hreached).append
        (.of_no_operands (by simp))
    | ofClass =>
      exact ((PartsAlike.of_no_operands (by simp)).append hreached).append
        (.of_no_operands (by simp))
  | wrapper h => exact .cons (.operand h) .nil
  | classCast h => exact (PartsAlike.text _ (.inside h (.text _ .nil))).wrap mode
  | @convert conversion _ _ h =>
    cases conversion with
    | objectToInterface => exact .cons (.operand h) .nil
    | _ => exact (PartsAlike.text _ (.inside h .nil)).wrap mode
  | virtualCall hs => exact (PartsAlike.callParts _ hs).wrap mode
  | @finalCall kind _ _ _ hs =>
    cases kind with
    | math => exact (PartsAlike.callParts _ hs).wrap mode
    | anywhere =>
      exact ((PartsAlike.of_no_operands (by simp)).append (.callParts _ hs)).append
        (.of_no_operands (by simp))
    | onSelf =>
      simp only [Node.layout, PartsAlike.isEmpty_eq hs]
      exact ((PartsAlike.of_no_operands (by split <;> simp)).append (.callParts _ hs)).append
        (.of_no_operands (by simp))
  | changeDelegate hd h =>
    simp only [Node.layout, hd.resembles.receiver]
    split
    · exact (PartsAlike.inside hd (.text _ (.inside h (.text _ .nil)))).wrap mode
    · exact .nil
  | clearDelegate hd => exact (PartsAlike.inside hd (.text _ .nil)).wrap mode
  | callDelegate hd hs =>
    simp only [Node.layout, hd.resembles.receiver]
    split
    · exact (PartsAlike.inside hd (.callParts _ hs)).wrap mode
    · exact .nil
  | bindDelegate hd h => exact (PartsAlike.inside hd (.text _ (.inside h (.text _ .nil)))).wrap mode
  | ret h =>
    simp only [Node.layout, h.resembles.nothing]
    exact (PartsAlike.text _ (.text _ (.inside h .nil))).wrap mode
  | jumpIfNot h => exact (PartsAlike.text _ (.inside h (.text _ .nil))).wrap mode
  | @computedJump operand operand' h =>
    simp only [Node.layout, h.resembles.offset]
    refine (PartsAlike.text _ (.cons ?_ .nil)).wrap mode
    cases constantOffset? operand'.node with
    | some target => exact .text _
    | none => exact .operand h
  | pushFlow => exact .nil
  | popFlowIfNot h => exact (PartsAlike.text _ (.inside h (.text _ .nil))).wrap mode
  | switch hi hd hs => exact .switch _ _ _ hi hd hs
  | assert => exact .text _ .nil
  | skip => exact .text _ .nil
  | instrumentation => exact .text _ .nil
  | transact => exact .nil
  | stopTransact => exact .nil
  | abortIfNot => exact .nil

end Pseudocode
