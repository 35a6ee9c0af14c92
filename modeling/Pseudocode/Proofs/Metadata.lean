import Pseudocode.Proofs.AlikeLayouts

/-! What rendering does not read. Scripts that differ in metadata alone have the
same jumps and are laid out alike, so that they are rendered to the same text. -/

namespace Pseudocode

variable {targets : List UInt32}

inductive Piece.Alike (targets : List UInt32) : Piece → Piece → Prop
  | text (s : String) : Alike targets (.text s) (.text s)
  | enter {i j : UInt32} (mode : RenderMode) :
      sameLabel targets i j → Alike targets (.enter i mode) (.enter j mode)
  | margin : Alike targets .margin .margin

theorem PartsAlike.pieces {ps ps' : List Part} (h : PartsAlike targets ps ps')
    (hoperands : ∀ m c, .operand m c ∈ ps → ∀ c', c.Alike targets c' →
      List.Forall₂ (Piece.Alike targets) (c.pieces ⟨false⟩ m) (c'.pieces ⟨false⟩ m)) :
    List.Forall₂ (Piece.Alike targets) (ps.flatMap (Part.pieces ⟨false⟩))
      (ps'.flatMap (Part.pieces ⟨false⟩)) := by
  induction h with
  | nil => exact .nil
  | cons hp _ ih =>
    have hrest := ih fun m c hc => hoperands m c (List.mem_cons_of_mem _ hc)
    cases hp with
    | text s => exact .cons (.text s) hrest
    | margin => exact .cons .margin hrest
    | operand hc => exact List.rel_append (hoperands _ _ List.mem_cons_self _ hc) hrest

theorem Expr.Alike.pieces {e e' : Expr} (h : e.Alike targets e') (mode : RenderMode) :
    List.Forall₂ (Piece.Alike targets) (e.pieces ⟨false⟩ mode) (e'.pieces ⟨false⟩ mode) := by
  induction mode, e using Expr.render_induction (o := ⟨false⟩) generalizing e' with
  | h mode e ih =>
    obtain ⟨hlabel, hnode⟩ := h
    rw [Expr.pieces_eq, Expr.pieces_eq]
    exact .cons (.enter mode hlabel) ((hnode.layout mode).pieces fun m c hc c' h => ih m c hc h)

namespace Renderer

theorem put_alike {r : Renderer} {p q : Piece} (h : p.Alike r.targets q) : r.put p = r.put q := by
  cases h with
  | text s => rfl
  | margin => rfl
  | enter mode hlabel =>
    obtain rfl | ⟨hi, hj⟩ := hlabel
    · rfl
    · simp [put, emitLabel, hi, hj]

theorem foldl_put_alike {r : Renderer} (hr : r.targets = targets) {ps qs : List Piece}
    (h : List.Forall₂ (Piece.Alike targets) ps qs) : ps.foldl put r = qs.foldl put r := by
  induction h generalizing r with
  | nil => rfl
  | cons hp _ ih =>
    rw [List.foldl_cons, List.foldl_cons, put_alike (hr ▸ hp)]
    exact ih ((r.put_targets _).trans hr)

end Renderer

theorem Node.Alike.children {R : Expr → Expr → Prop} {node node' : Node Expr}
    (h : Node.Alike R node node') : List.Forall₂ R node.children node'.children := by
  cases h with
  | leaf hnode =>
    rw [hnode]
    exact .nil
  | struct hs | array hs | set hs | map hs | virtualCall hs | finalCall hs => exact hs
  | fill ht hs | callDelegate ht hs => exact .cons ht hs
  | assign ht ha | letKind ht ha | elementOf ht ha | context ht ha | changeDelegate ht ha
  | bindDelegate ht ha =>
    exact .cons ht (.cons ha .nil)
  | switch hi hd hs =>
    refine List.rel_append (.cons hi (List.rel_flatMap hs ?_)) (.cons hd .nil)
    rintro c c' ⟨hkey, hterm⟩
    exact .cons hkey (.cons hterm .nil)
  | persistentLet _ h | memberOf _ h => exact .cons h .nil
  | text h | wrapper h | classCast h | convert h | clearDelegate h | ret h | jumpIfNot h
  | computedJump h
  | popFlowIfNot h | assert h | skip h | abortIfNot h => exact .cons h .nil
  | var | propertyConst | bitField | pushFlow | instrumentation | transact | stopTransact =>
    exact .nil

theorem Node.Alike.jumpOffset?_eq {node node' : Node Expr}
    (h : Node.Alike (Expr.Alike targets) node node') : jumpOffset? node = jumpOffset? node' := by
  cases h with
  | computedJump h => exact h.resembles.offset
  | _ => rfl

theorem collectTargets_alike {found : List UInt32} {pending pending' : List Expr}
    (h : List.Forall₂ (Expr.Alike targets) pending pending') :
    collectTargets found pending = collectTargets found pending' := by
  induction found, pending using collectTargets.induct generalizing pending' with
  | case1 found =>
    cases h
    rfl
  | case2 found e rest ih =>
    obtain _ | ⟨he, hrest⟩ := h
    obtain ⟨-, hnode⟩ := he
    rw [collectTargets, collectTargets, ih (List.rel_append hnode.children hrest)]
    simp only [hnode.jumpOffset?_eq]
    rfl

/-- Whatever scripts carry besides what is shown, they have the same jumps and the
same text. -/
theorem renderStatements_metadata {script script' : List Expr}
    (h : List.Forall₂ (Expr.Alike (jumpTargets script)) script script') :
    jumpTargets script' = jumpTargets script ∧
    renderStatements script' ⟨false⟩ = renderStatements script ⟨false⟩ := by
  have htargets : jumpTargets script' = jumpTargets script := (collectTargets_alike h).symm
  have hpieces : List.Forall₂ (Piece.Alike (jumpTargets script)) (scriptPieces ⟨false⟩ script)
      (scriptPieces ⟨false⟩ script') := List.rel_flatMap h fun _ _ he => he.pieces .statement
  refine ⟨htargets, ?_⟩
  simp only [renderStatements, Renderer.renderAll_eq, htargets]
  exact congrArg Renderer.text (Renderer.foldl_put_alike rfl hpieces).symm

def openedDoor : List Expr := [
  ⟨0, .jumpIfNot 40 ⟨5, .var .member (.ofPath ["Is Closed"])⟩⟩,
  ⟨20, .assign .empty ⟨21, .var .stackLocal (.legacy "Hinges")⟩
    ⟨30, .array .empty [⟨31, .atom .intOne⟩]⟩⟩,
  ⟨40, .ret ⟨41, .atom .nothing⟩⟩]

def annotatedDoor : List Expr := [
  ⟨0, .jumpIfNot 40 ⟨6, .var .member ⟨some ["Is Closed"], some "bClosed", true⟩⟩⟩,
  ⟨22, .assign (.ofPath ["Hinges"]) ⟨23, .var .stackLocal (.legacy "Hinges")⟩
    ⟨33, .array (.legacy "Hinge") [⟨31, .atom .intOne⟩]⟩⟩,
  ⟨40, .ret ⟨41, .atom .nothing⟩⟩]

theorem renderStatements_metadata_door :
    List.Forall₂ (Expr.Alike (jumpTargets openedDoor)) openedDoor annotatedDoor ∧
    renderStatements annotatedDoor ⟨false⟩ = renderStatements openedDoor ⟨false⟩ := by
  have htargets : jumpTargets openedDoor = [40] := by cbv
  have halike : List.Forall₂ (Expr.Alike (jumpTargets openedDoor)) openedDoor annotatedDoor := by
    rw [htargets]
    refine .cons (.mk (.inl rfl) (.jumpIfNot ?condition))
      (.cons (.mk (.inr (by decide)) (.assign ?target ?value)) (.cons (.refl _) .nil))
    case condition => exact .mk (.inr (by decide)) (.var .of_path)
    case target => exact .mk (.inr (by decide)) (.var (.refl _))
    case value => exact .mk (.inr (by decide)) (.array (.cons (.refl _) .nil))
  exact ⟨halike, (renderStatements_metadata halike).2⟩

end Pseudocode
