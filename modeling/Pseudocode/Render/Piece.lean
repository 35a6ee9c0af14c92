import Pseudocode.Render.Operands

/-! What an expression is rendered to before it is known which labels are wanted:
texts, and the places where text depends on what came before. Neither the jump
targets nor the text so far play a part here. -/

namespace Pseudocode

inductive Piece where
  | text (s : String)
  /-- An expression begins here, and so does its label if something jumps to it. -/
  | enter (offset : UInt32) (mode : RenderMode)
  | margin
  deriving DecidableEq, Repr

theorem Expr.sizeOf_lt_of_mem_children {e c : Expr} (h : c ∈ e.children) : sizeOf c < sizeOf e :=
  Nat.lt_of_lt_of_le (List.sizeOf_lt_of_mem h) (sizeOf_children e)

theorem Expr.sizeOf_lt_of_operand {o : RenderOptions} {mode m : RenderMode} {e c : Expr}
    (h : .operand m c ∈ e.node.layout o mode) : sizeOf c < sizeOf e :=
  sizeOf_lt_of_mem_children (operandsOf_layout_subset o mode e.node (mem_operandsOf.mpr ⟨m, h⟩))

def Expr.pieces (o : RenderOptions) (mode : RenderMode) (e : Expr) : List Piece :=
  .enter e.index mode :: (e.node.layout o mode).attach.flatMap fun
    | ⟨.text s, _⟩ => [.text s]
    | ⟨.margin, _⟩ => [.margin]
    | ⟨.operand m operand, _⟩ => operand.pieces o m
termination_by e
decreasing_by exact sizeOf_lt_of_operand ‹_›

def Part.pieces (o : RenderOptions) : Part → List Piece
  | .text s => [.text s]
  | .margin => [.margin]
  | .operand mode e => e.pieces o mode

theorem Expr.pieces_eq (o : RenderOptions) (mode : RenderMode) (e : Expr) :
    e.pieces o mode = .enter e.index mode :: (e.node.layout o mode).flatMap (Part.pieces o) := by
  have hparts : ((e.node.layout o mode).attach.map Subtype.val).flatMap (Part.pieces o) =
      (e.node.layout o mode).flatMap (Part.pieces o) := by rw [List.attach_map_subtype_val]
  rw [Expr.pieces, ← hparts, List.flatMap_map]
  congr 2
  funext ⟨part, _⟩
  cases part <;> rfl

end Pseudocode
