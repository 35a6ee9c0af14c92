import Pseudocode.Proofs.BalancedValues
import Pseudocode.Proofs.LabelInsertion
import Pseudocode.Render.Outline

/-! The brackets that a node writes by itself are properly nested with its
operands left out. The one bracket that a statement may close without having
opened it is that of its function. -/

namespace Pseudocode

def ownBrackets (parts : List Part) : List Char := parts.flatMap fun
  | .text s => bracketsOf s
  | _ => []

@[simp] theorem ownBrackets_nil : ownBrackets [] = [] := rfl

@[simp] theorem ownBrackets_append (ps qs : List Part) :
    ownBrackets (ps ++ qs) = ownBrackets ps ++ ownBrackets qs :=
  List.flatMap_append

@[simp] theorem ownBrackets_text (s : String) (ps : List Part) :
    ownBrackets (.text s :: ps) = bracketsOf s ++ ownBrackets ps := rfl

@[simp] theorem ownBrackets_margin (ps : List Part) :
    ownBrackets (.margin :: ps) = ownBrackets ps :=
  rfl

@[simp] theorem ownBrackets_operand (mode : RenderMode) (e : Expr) (ps : List Part) :
    ownBrackets (.operand mode e :: ps) = ownBrackets ps := rfl

@[simp] theorem ownBrackets_ite (b : Prop) [Decidable b] (ps qs : List Part) :
    ownBrackets (if b then ps else qs) = if b then ownBrackets ps else ownBrackets qs :=
  apply_ite ownBrackets b ps qs

theorem ownBrackets_inStatement {s : String} (h : bracketsOf s = []) (mode : RenderMode) :
    ownBrackets (mode.inStatement [.text s]) = [] := by
  cases mode <;> simp [RenderMode.inStatement, h]

@[simp] theorem ownBrackets_indented (mode : RenderMode) :
    ownBrackets (mode.inStatement [.text indentation]) = [] :=
  ownBrackets_inStatement (by decide) mode

@[simp] theorem ownBrackets_inMargin (mode : RenderMode) :
    ownBrackets (mode.inStatement [.margin]) = [] := by
  cases mode <;> rfl

@[simp] theorem ownBrackets_wrap (mode : RenderMode) (ps : List Part) :
    ownBrackets (mode.wrap ps) = ownBrackets ps := by
  have hlast := ownBrackets_inStatement (s := terminator) (by decide) mode
  simp [RenderMode.wrap, hlast]

theorem ownBrackets_argumentParts (lines : Bool) (es : List Expr) :
    ownBrackets (argumentParts lines es) = [] := by
  have hbreak : bracketsOf "\n\t\t\t" = [] := by decide
  have hcomma : bracketsOf ", " = [] := by decide
  induction es with
  | nil => rfl
  | cons e es ih =>
    rw [argumentParts]
    simp [hbreak, hcomma, ih]

@[simp] theorem ownBrackets_callParts (callee : String) (es : List Expr) :
    ownBrackets (callParts callee es) = bracketsOf callee ++ ['(', ')'] := by
  have hparens : bracketsOf "(" = ['('] ∧ bracketsOf ")" = [')'] := by decide
  simp [callParts, ownBrackets_argumentParts, hparens]

theorem ownBrackets_elementParts (es : List Expr) : ownBrackets (elementParts es) = [] := by
  have hmarks : bracketsOf " " = [] ∧ bracketsOf "," = [] := by decide
  induction es with
  | nil => rfl
  | cons e es ih =>
    rw [elementParts]
    simp [hmarks, ih]

theorem ownBrackets_pairParts (es : List Expr) : ownBrackets (pairParts es) = [] := by
  have hmarks : bracketsOf " " = [] ∧ bracketsOf ": " = [] ∧ bracketsOf "," = [] := by decide
  induction es using pairParts.induct with
  | case1 => rfl
  | case2 key => simp [pairParts, hmarks]
  | case3 key value rest ih =>
    rw [pairParts]
    simp [hmarks, ih]

@[simp] theorem ownBrackets_containerParts (kind : ContainerKind) (es : List Expr) :
    ownBrackets (containerParts kind es) = ['\x7b', '\x7d'] := by
  have hbegin : bracketsOf (kind.typeName ++ " \x7b") = ['\x7b'] := by cases kind <;> decide
  have hend : bracketsOf (if es.isEmpty then "  \x7d" else " \x7d") = ['\x7d'] := by
    split <;> decide
  simp only [containerParts, List.cons_append, ownBrackets_text, ownBrackets_append,
    ownBrackets_ite, hbegin, hend, ownBrackets_pairParts, ownBrackets_elementParts, ite_self]
  rfl

@[simp] theorem ownBrackets_fieldParts (es : List Expr) : ownBrackets (fieldParts es) = [] := by
  have hcomma : bracketsOf ", " = [] := by decide
  induction es with
  | nil => rfl
  | cons e es ih =>
    rw [fieldParts]
    simp [hcomma, ih]

@[simp] theorem ownBrackets_assignmentParts (mode : RenderMode) (target assignment : Expr) :
    ownBrackets (assignmentParts mode target assignment) = [] := by
  have hmarks : bracketsOf " = " = [] ∧ bracketsOf terminator = [] := by decide
  simp [assignmentParts, hmarks]

@[simp] theorem ownBrackets_intersperse (es : List Expr) :
    ownBrackets ((es.map Part.inside).intersperse (.text " : ")) = [] := by
  have hcolon : bracketsOf " : " = [] := by decide
  induction es with
  | nil => rfl
  | cons e es ih =>
    cases es with
    | nil => rfl
    | cons e' es =>
      have hcons : ownBrackets (.inside e :: .text " : " ::
          ((e' :: es).map Part.inside).intersperse (.text " : ")) = [] := by
        simpa [hcolon] using ih
      exact hcons

@[simp] theorem bracketsOf_nat (n : Nat) : bracketsOf n.repr = [] :=
  (isNumeralText_nat n).brackets_nil

@[simp] theorem bracketsOf_int (i : Int) : bracketsOf i.repr = [] :=
  (isNumeralText_int i).brackets_nil

@[simp] theorem bracketsOf_labelName (n : UInt32) : bracketsOf (labelName n) = [] := by
  have hword : bracketsOf "Label_" = [] := by decide
  simp [labelName, hword]

theorem nested_caseParts (c : SwitchCase Expr) : Nested (ownBrackets (caseParts c)) := by
  have hcase : bracketsOf "\t\t\tcase " = [] ∧ bracketsOf ":\n" = [] := by decide
  have hbody : bracketsOf "\t\t\t\x7b\n\t\t\t    " = ['\x7b'] ∧
    bracketsOf ";\n\t\t\t    break;\n\t\t\t\x7d\n" = ['\x7d'] := by decide
  have hbraces : Nested ['\x7b', '\x7d'] := by decide
  cases h : c.key.node.int? <;> simpa [caseParts, h, hcase, hbody] using hbraces

theorem nested_cases (cases : List (SwitchCase Expr)) :
    Nested (ownBrackets (cases.flatMap caseParts)) := by
  induction cases with
  | nil => exact .nil
  | cons c cases ih => simpa using (nested_caseParts c).append ih

theorem bracketsOf_hexDigits (value : UInt8) :
    bracketsOf (String.ofList (hexDigits 'A' value.toNat)) = [] := by
  have hno : bracketFree "0123456789ABCDEF" := by decide +kernel
  refine bracketFree.brackets_nil fun c hc hmem => hno c hc (mem_hexDigits_byte value c ?_)
  simpa using hmem

theorem ObjectRef.nested_findText {o : ObjectRef} (h : ∀ s ∈ o.strings, bracketFree s) :
    Nested (bracketsOf o.findText) := by
  obtain ⟨class_, outer, hclass, houter, htext⟩ := o.findText_eq
  have hmarks : bracketsOf "FindObject<" = [] ∧ bracketsOf ">(" = ['('] ∧ bracketsOf "." = [] ∧
    bracketsOf ")" = [')'] := by decide
  have hparens : Nested ['(', ')'] := by decide
  rw [htext]
  simpa [hmarks, bracketsOf_inQuotes, hclass.brackets_nil h, houter.brackets_nil h,
    o.madeOf_name.brackets_nil h] using hparens

/-- A node nests the brackets that it writes, unless it closes its function. -/
theorem Node.nested_layout {node : Node Expr} {mode : RenderMode}
    (hend : mode = .statement → node.opcode ≠ .endOfScript) (h : ∀ s ∈ node.strings, bracketFree s)
    (o : RenderOptions) : Nested (ownBrackets (node.layout o mode)) := by
  have hparens : Nested ['(', ')'] := by decide
  have hopen : bracketsOf "(" = ['('] := by decide
  have hclose : bracketsOf ")" = [')'] := by decide
  cases node
  case atom a =>
    by_cases ha : a = .endOfScript
    · cases mode
      · exact absurd (by rw [ha]; rfl) (hend rfl)
      · simpa [Node.layout, ha, RenderMode.inStatement] using Nested.nil
    · cases a <;> simp_all [Node.layout, Atom.text] <;> decide
  case var kind p => simpa [Node.layout, (p.madeOf_variableText o).brackets_nil h] using Nested.nil
  case propertyConst p => simpa [Node.layout, p.madeOf_text.brackets_nil h] using Nested.nil
  case byte kind value =>
    have hprefix : bracketsOf "0x" = [] := by decide
    simpa [Node.layout, hprefix, bracketsOf_hexDigits] using Nested.nil
  case float value => simpa [Node.layout] using value.isNumeralText_plainText.nested
  case double value => simpa [Node.layout] using value.isNumeralText_constantText.nested
  case literal kind value =>
    have hvalue := (h value (by simp [Node.strings])).nested
    simpa [Node.layout, bracketsOf_inQuotes] using hvalue
  case unicodeString value => simpa [Node.layout] using (h value (by simp [Node.strings])).nested
  case delegateName function =>
    have hname := (h function (by simp [Node.strings])).nested
    simpa [Node.layout, bracketsOf_inQuotes] using hname
  case text source =>
    cases source with
    | none => exact (by decide : Nested (bracketsOf "nullptr" ++ []))
    | some source => exact .nil
  case objectConst value => simpa [Node.layout] using ObjectRef.nested_findText h
  case vector value => simpa [Node.layout] using value.nested_text
  case vector3f value => simpa [Node.layout] using nested_numerals (by decide) (by simp)
  case rotation value => simpa [Node.layout] using value.nested_text
  case transform value => simpa [Node.layout] using value.nested_text
  case struct type size fields =>
    simpa [Node.layout, type.madeOf_typeName.brackets_nil h, hopen, hclose] using hparens
  case array inner elements => simpa [Node.layout] using (by decide : Nested ['\x7b', '\x7d'])
  case set inner elements => simpa [Node.layout] using (by decide : Nested ['\x7b', '\x7d'])
  case map key value elements => simpa [Node.layout] using (by decide : Nested ['\x7b', '\x7d'])
  case fill kind target elements =>
    have hequals : bracketsOf " = " = [] := by decide
    simpa [Node.layout, hequals] using (by decide : Nested ['\x7b', '\x7d'])
  case persistentLet destination assignment =>
    have htexts : bracketsOf "UberGraphFrame->" = [] ∧ bracketsOf " = " = [] := by decide
    simpa [Node.layout, htexts, destination.madeOf_text.brackets_nil h] using Nested.nil
  case memberOf member owner =>
    have hdot : bracketsOf "." = [] := by decide
    simpa [Node.layout, hdot, member.madeOf_text.brackets_nil h] using Nested.nil
  case elementOf container position =>
    have htexts : bracketsOf "[" = ['['] ∧ bracketsOf "]" = [']'] := by decide
    simpa [Node.layout, htexts] using (by decide : Nested ['[', ']'])
  case context kind object offset result member =>
    have htexts : bracketsOf "->" = [] := by decide
    have hlast := ownBrackets_inStatement (s := terminator) (by decide) mode
    cases kind
    case failSilent => cases mode <;> simpa [Node.layout, htexts] using Nested.nil
    all_goals simpa [Node.layout, htexts, hlast] using Nested.nil
  case classCast kind class_ operand =>
    have htexts : bracketsOf "Cast<" = [] ∧ bracketsOf "*>(" = ['('] := by decide
    simpa [Node.layout, htexts, hclose, class_.madeOf_typeName.brackets_nil h] using hparens
  case convert conversion operand =>
    cases conversion
    case objectToInterface => exact .nil
    all_goals simpa [Node.layout, Conversion.text] using by decide
  case virtualCall kind function arguments =>
    have hname :=
      (madeOf_withoutSpaces (madeOf_of_mem (List.mem_singleton_self function))).brackets_nil h
    simpa [Node.layout, hname] using hparens
  case finalCall kind function arguments =>
    have hlast := ownBrackets_inStatement (s := ";\n") (by decide) mode
    have howner :=
      ownBrackets_inStatement ((function.madeOf_ownerLetter []).brackets_nil (by simp)) mode
    cases kind
    case math => simpa [Node.layout, function.madeOf_mathText.brackets_nil h] using hparens
    all_goals simpa [Node.layout, hlast, howner, function.madeOf_functionText.brackets_nil h]
      using hparens
  case changeDelegate change delegate operand =>
    have hmethod : bracketsOf change.method = ['('] := by cases change <;> decide
    by_cases hd : delegate.node.isDelegateReceiver
    · simpa [Node.layout, hd, hmethod, hclose] using hparens
    · simpa [Node.layout, hd] using Nested.nil
  case clearDelegate delegate =>
    have hmethod : bracketsOf ".Clear()" = ['(', ')'] := by decide
    simpa [Node.layout, hmethod] using hparens
  case callDelegate signature delegate arguments =>
    have hmethod : bracketsOf ".Call" = [] := by decide
    by_cases hd : delegate.node.isDelegateReceiver
    · simpa [Node.layout, hd, hmethod] using hparens
    · simpa [Node.layout, hd] using Nested.nil
  case bindDelegate function delegate object =>
    have htexts : bracketsOf ".BindUFunction(" = ['('] ∧ bracketsOf ", " = [] := by decide
    have hname := (h function (by simp [Node.strings])).brackets_nil
    simpa [Node.layout, htexts, hclose, bracketsOf_inQuotes, hname] using hparens
  case ret operand =>
    have htexts : bracketsOf "return" = [] := by decide
    have hspace : bracketsOf (if operand.node.isNothing then "" else " ") = [] := by
      split <;> decide
    simpa [Node.layout, htexts, hspace] using Nested.nil
  case jump offset =>
    have hgoto : bracketsOf "goto " = [] := by decide
    simpa [Node.layout, hgoto] using Nested.nil
  case jumpIfNot offset condition =>
    have htexts : bracketsOf "if (!" = ['('] ∧ bracketsOf ") goto " = [')'] := by decide
    simpa [Node.layout, htexts] using hparens
  case computedJump offset =>
    have hgoto : bracketsOf "goto " = [] := by decide
    cases hoffset : constantOffset? offset.node <;> simpa [Node.layout, hgoto, hoffset]
      using Nested.nil
  case popFlowIfNot condition =>
    have htexts : bracketsOf "if (!" = ['('] ∧ bracketsOf ") FlowStack.Pop()" =
        [')', '(', ')'] := by
      decide
    simpa [Node.layout, htexts] using (by decide : Nested ['(', ')', '(', ')'])
  case switch endOffset index default_ cases =>
    by_cases ht : isTernary cases
    · have hmark : bracketsOf " ? " = [] := by decide
      simpa [Node.layout, ht, hmark] using Nested.nil
    · have hbegin : bracketsOf "switch (" = ['('] ∧ bracketsOf ")\n\t\t\x7b\n" = [')', '\x7b'] := by
        decide
      have hdefault : bracketsOf "\t\t\tdefault:\n\t\t\t\x7b\n\t\t\t    " = ['\x7b'] ∧
        bracketsOf "\n\t\t\t\x7d\n\t\t\x7d" = ['\x7d', '\x7d'] := by decide
      have hlast := ownBrackets_inStatement (s := "\n\n") (by decide) mode
      have hbody : Nested (ownBrackets (cases.flatMap caseParts) ++ ['\x7b', '\x7d']) :=
        (nested_cases cases).append (by decide)
      have hswitch : Nested ('(' :: ([] ++ ')' :: ('\x7b' ::
          (ownBrackets (cases.flatMap caseParts) ++ ['\x7b', '\x7d'] ++ '\x7d' :: [])))) :=
        .pair rfl .nil (.pair rfl hbody .nil)
      simpa [Node.layout, ht, hbegin, hdefault, hlast] using hswitch
  all_goals simp +decide [Node.layout, Nested.nil]

end Pseudocode
