import Pseudocode.Script.Expr
import Pseudocode.Text.Blank
import Pseudocode.Text.Search

/-! Labels: their names, the offsets that jumps lead to, and finding a label in
rendered text. -/

namespace Pseudocode

def labelName (offset : UInt32) : String := "Label_" ++ toString offset.toNat

def constantOffset? : Node Expr → Option UInt32
  | .int32 value => if 0 ≤ value then some value.toInt.toNat.toUInt32 else none
  | .skipOffset value => some value
  | _ => none

def jumpOffset? : Node Expr → Option UInt32
  | .jump offset => some offset
  | .jumpIfNot offset _ => some offset
  | .computedJump operand => constantOffset? operand.node
  | _ => none

def insertOffset (offset : UInt32) : List UInt32 → List UInt32
  | [] => [offset]
  | o :: os =>
    if offset < o then offset :: o :: os
    else if offset = o then o :: os
    else o :: insertOffset offset os

theorem sizeOf_append {α : Type} [SizeOf α] (xs ys : List α) :
    sizeOf (xs ++ ys) + 1 = sizeOf xs + sizeOf ys := by
  induction xs with
  | nil => simp; omega
  | cons x xs ih => simp; omega

theorem sizeOf_caseOperands (cases : List (SwitchCase Expr)) :
    sizeOf (cases.flatMap fun c => [c.key, c.term]) ≤ sizeOf cases := by
  induction cases with
  | nil => simp
  | cons c cases ih =>
    obtain ⟨key, nextOffset, term⟩ := c
    simp
    omega

/-- A node is larger than the list of its operands, so that replacing it by them
makes a worklist smaller. -/
theorem sizeOf_children (e : Expr) : sizeOf e.children ≤ sizeOf e := by
  obtain ⟨index, node⟩ := e
  cases node
  case text source =>
    cases source with
    | none => simp [Expr.children, Node.children]
    | some source =>
      simp [Expr.children, Node.children]
      omega
  case switch endOffset index default_ cases =>
    have h := sizeOf_append (cases.flatMap fun c => [c.key, c.term]) [default_]
    have h' := sizeOf_caseOperands cases
    simp [Expr.children, Node.children] at h ⊢
    omega
  all_goals simp [Expr.children, Node.children] <;> omega

def collectTargets (targets : List UInt32) : List Expr → List UInt32
  | [] => targets
  | e :: rest =>
    collectTargets
      (match jumpOffset? e.node with
        | some offset => insertOffset offset targets
        | none => targets)
      (e.children ++ rest)
  termination_by pending => sizeOf pending
  decreasing_by
    have h := sizeOf_append e.children rest
    have h' := sizeOf_children e
    simp
    omega

/-- The offsets that the jumps of a script lead to, at whatever depth they stand:
ascending, each once. -/
def jumpTargets (script : List Expr) : List UInt32 := collectTargets [] script

/-- The line, counted from zero, that holds the label of an offset and else only
blanks. -/
def findLabelLine (text : String) (offset : UInt32) : Option Nat :=
  (textLines text.toList).findIdx? fun line => trimBlanks line = (labelName offset ++ ":").toList

end Pseudocode
