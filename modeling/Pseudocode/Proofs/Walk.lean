import Mathlib.Data.List.Flatten
import Pseudocode.Render.Piece

/-! Walks through an expression: the one through all operands, and the one that
rendering takes. Rendering leaves some operands out, and moves the terms of a
choice whose false case is listed first. -/

namespace Pseudocode

theorem Expr.induction {P : Expr → Prop} (h : ∀ e, (∀ c ∈ e.children, P c) → P e) (e : Expr) :
    P e :=
  h e fun c _ => Expr.induction h c
termination_by e
decreasing_by exact Expr.sizeOf_lt_of_mem_children ‹_›

/-- An expression and all below it, each before its operands and the operands from
left to right. -/
def Expr.walk (e : Expr) : List Expr := e :: e.children.attach.flatMap fun ⟨c, _⟩ => c.walk
termination_by e
decreasing_by exact Expr.sizeOf_lt_of_mem_children ‹_›

theorem Expr.walk_eq (e : Expr) : e.walk = e :: e.children.flatMap Expr.walk := by
  have h :
      (e.children.attach.map Subtype.val).flatMap Expr.walk = e.children.flatMap Expr.walk := by
    rw [List.attach_map_subtype_val]
  rw [Expr.walk, ← h, List.flatMap_map]

def scriptWalk (script : List Expr) : List Expr := script.flatMap Expr.walk

theorem scriptWalk_cons (e : Expr) (rest : List Expr) :
    scriptWalk (e :: rest) = e :: scriptWalk (e.children ++ rest) := by
  simp [scriptWalk, e.walk_eq]

theorem scriptWalk_append (a b : List Expr) : scriptWalk (a ++ b) = scriptWalk a ++ scriptWalk b :=
  List.flatMap_append

theorem scriptWalk_eq_nil {script : List Expr} : scriptWalk script = [] ↔ script = [] := by
  cases script with
  | nil => simp [scriptWalk]
  | cons e rest => simp [scriptWalk_cons]

theorem Expr.self_mem_walk (e : Expr) : e ∈ e.walk := by simp [e.walk_eq]

theorem Expr.walk_subset_of_mem_children {e c : Expr} (h : c ∈ e.children) : c.walk ⊆ e.walk := by
  intro x hx
  rw [e.walk_eq]
  exact List.mem_cons_of_mem _ (List.mem_flatMap.mpr ⟨c, h, hx⟩)

theorem Expr.walk_subset_of_operand {o : RenderOptions} {mode m : RenderMode} {e c : Expr}
    (h : .operand m c ∈ e.node.layout o mode) : c.walk ⊆ e.walk :=
  walk_subset_of_mem_children (operandsOf_layout_subset o mode e.node (mem_operandsOf.mpr ⟨m, h⟩))

/-- Rendering an expression renders its operands; what holds of these in their
modes may be used for it. -/
theorem Expr.render_induction {o : RenderOptions} {P : RenderMode → Expr → Prop}
    (h : ∀ mode e, (∀ m c, .operand m c ∈ e.node.layout o mode → P m c) → P mode e)
    (mode : RenderMode) (e : Expr) : P mode e :=
  h mode e fun m c _ => Expr.render_induction h m c
termination_by e
decreasing_by exact Expr.sizeOf_lt_of_operand ‹_›

/-- The nodes that rendering an expression enters, each with its mode, in order. -/
def Expr.entered (o : RenderOptions) (mode : RenderMode) (e : Expr) : List (Expr × RenderMode) :=
  (e, mode) :: (e.node.layout o mode).attach.flatMap fun
    | ⟨.operand m c, _⟩ => c.entered o m
    | _ => []
termination_by e
decreasing_by exact Expr.sizeOf_lt_of_operand ‹_›

def Part.entered (o : RenderOptions) : Part → List (Expr × RenderMode)
  | .operand m c => c.entered o m
  | _ => []

theorem Expr.entered_eq (o : RenderOptions) (mode : RenderMode) (e : Expr) :
    e.entered o mode = (e, mode) :: (e.node.layout o mode).flatMap (Part.entered o) := by
  have h : ((e.node.layout o mode).attach.map Subtype.val).flatMap (Part.entered o) =
      (e.node.layout o mode).flatMap (Part.entered o) := by rw [List.attach_map_subtype_val]
  rw [Expr.entered, ← h, List.flatMap_map]
  congr 2
  funext ⟨part, _⟩
  cases part <;> rfl

def scriptEntered (o : RenderOptions) (script : List Expr) : List (Expr × RenderMode) :=
  script.flatMap (Expr.entered o .statement)

theorem Expr.mem_walk_of_entered {o : RenderOptions} {mode : RenderMode} {e : Expr}
    {x : Expr × RenderMode} (h : x ∈ e.entered o mode) : x.1 ∈ e.walk := by
  induction mode, e using Expr.render_induction (o := o) with
  | h mode e ih =>
    rw [e.entered_eq] at h
    rcases List.mem_cons.mp h with rfl | h
    · exact e.self_mem_walk
    · obtain ⟨p, hp, hx⟩ := List.mem_flatMap.mp h
      cases p with
      | text s => simp [Part.entered] at hx
      | margin => simp [Part.entered] at hx
      | operand m c => exact walk_subset_of_operand hp (ih m c hp hx)

/-- Whether a switch lists a false key somewhere before a true one. -/
def falseBeforeTrue (cases : List (SwitchCase Expr)) : Prop :=
  [some false, some true].Sublist (cases.map (·.key.node.truth?))

def Node.swapsBranches : Node Expr → Prop
  | .switch _ _ _ cases => falseBeforeTrue cases
  | _ => False

theorem ternaryTerms_sublist {cases : List (SwitchCase Expr)} (ht : isTernary cases)
    (h : ¬ falseBeforeTrue cases) : (ternaryTerms cases).Sublist (cases.map (·.term)) := by
  simp only [isTernary, Bool.and_eq_true, decide_eq_true_eq] at ht
  match cases, ht with
  | [], _ => exact .slnil
  | [c], _ => cases hc : c.key.node.truth? with
    | none => simp [ternaryTerms, branches, hc]
    | some b => cases b <;> simp [ternaryTerms, branches, hc]
  | [c, d], ⟨_, hkeys⟩ =>
    obtain ⟨b, hb⟩ := Option.isSome_iff_exists.mp (List.all_eq_true.mp hkeys c (by simp))
    obtain ⟨b', hb'⟩ := Option.isSome_iff_exists.mp (List.all_eq_true.mp hkeys d (by simp))
    cases b <;> cases b' <;> simp_all [ternaryTerms, branches, falseBeforeTrue]

theorem operandsOf_layout_sublist {node : Node Expr} (h : ¬ node.swapsBranches) (o : RenderOptions)
    (mode : RenderMode) : (operandsOf (node.layout o mode)).Sublist node.children := by
  rcases operandsOf_layout o mode node with hs | ⟨endOffset, index, default_, cases, rfl, ht, hs⟩
  · exact hs
  · have hterms : (cases.map (·.term)).Sublist (cases.flatMap fun c => [c.key, c.term]) := by
      clear h ht hs
      induction cases with
      | nil => exact .slnil
      | cons c cases ih => exact (ih.cons_cons c.term).cons c.key
    rw [hs]
    exact (((ternaryTerms_sublist ht h).trans hterms).cons_cons index).trans
      (List.sublist_append_left _ [default_])

theorem parts_entered_sublist (o : RenderOptions) (parts : List Part)
    (h : ∀ m c, .operand m c ∈ parts → ((c.entered o m).map Prod.fst).Sublist c.walk) :
    ((parts.flatMap (Part.entered o)).map Prod.fst).Sublist
      ((operandsOf parts).flatMap Expr.walk) := by
  induction parts with
  | nil => exact .slnil
  | cons p parts ih =>
    have hi := ih fun m c hc => h m c (List.mem_cons_of_mem _ hc)
    cases p with
    | text _ => exact hi
    | margin => exact hi
    | operand m c =>
      simpa [Part.entered] using (h m c List.mem_cons_self).append hi

/-- Unless branches are swapped, nodes are entered in the order of the walk. -/
theorem Expr.entered_sublist_walk (o : RenderOptions) (mode : RenderMode) (e : Expr)
    (h : ∀ x ∈ e.walk, ¬ x.node.swapsBranches) :
    ((e.entered o mode).map Prod.fst).Sublist e.walk := by
  induction mode, e using Expr.render_induction (o := o) with
  | h mode e ih =>
    rw [e.entered_eq, e.walk_eq, List.map_cons]
    refine List.Sublist.cons_cons e ?_
    have hparts := parts_entered_sublist o (e.node.layout o mode) fun m c hc =>
      ih m c hc fun x hx => h x (walk_subset_of_operand hc hx)
    exact hparts.trans ((operandsOf_layout_sublist (h e e.self_mem_walk) o mode).flatMap _)

theorem scriptEntered_sublist_walk (o : RenderOptions) (script : List Expr)
    (h : ∀ x ∈ scriptWalk script, ¬ x.node.swapsBranches) :
    ((scriptEntered o script).map Prod.fst).Sublist (scriptWalk script) := by
  induction script with
  | nil => exact .slnil
  | cons e script ih =>
    have he := Expr.entered_sublist_walk o .statement e fun x hx => h x (by simp [scriptWalk, hx])
    have hs := ih fun x hx => h x (List.mem_append_right _ hx)
    simpa [scriptEntered, scriptWalk] using he.append hs

end Pseudocode
