import Pseudocode.Proofs.PartTexts

/-! Which characters a node writes around its operands. What it writes comes from
its strings or shows on the line; the letter that labels begin with, tabs and line
feeds have places of their own. Arguments about labels and about lines need to
look at those places alone. -/

namespace Pseudocode

/-- The nodes that break lines even inside an expression: calls, as their
arguments may get lines of their own, switches that are no choice between two
values, and assignments that are terminated wherever they stand. -/
def Node.breaksLines : Node Expr → Bool
  | .virtualCall .. | .finalCall .. | .callDelegate .. => true
  | .assign _ _ assignment | .letKind _ _ assignment => assignment.isCall
  | .switch _ _ _ cases => !isTernary cases
  | _ => false

section

variable {c : Char} (hc : isCommon c = false)
include hc

theorem lacks_containerParts (kind : ContainerKind) (es : List Expr) :
    allTexts (lacks c) (containerParts kind es) := by
  have hname : lacks c (kind.typeName ++ " \x7b") := lacks_common hc (by cases kind <;> decide)
  have hend : lacks c (if es.isEmpty then "  \x7d" else " \x7d") :=
    lacks_common hc (by split <;> decide)
  have helements : allTexts (lacks c) (elementParts es) :=
    allTexts_elementParts (lacks_common hc (by decide)) (lacks_common hc (by decide)) es
  have hpairs : allTexts (lacks c) (pairParts es) :=
    allTexts_pairParts (lacks_common hc (by decide)) (lacks_common hc (by decide))
      (lacks_common hc (by decide)) es
  simp only [containerParts, List.cons_append, allTexts_text, allTexts_append, allTexts_ite, hname,
    helements, hpairs, hend, allTexts_nil, implies_true, and_self]

theorem lacks_assignmentParts {mode : RenderMode} {assignment : Expr}
    (hlines : mode = .statement ∨ assignment.isCall → c ≠ '\t' ∧ c ≠ '\n') (target : Expr) :
    allTexts (lacks c) (assignmentParts mode target assignment) := by
  have hindent (hm : mode = .statement) : lacks c indentation :=
    lacks_ruled hc (hlines (.inl hm)) (by decide)
  have hend (he : mode = .statement ∨ assignment.isCall) : lacks c terminator :=
    lacks_ruled hc (hlines he) (by decide)
  simpa (disch := decide) [assignmentParts, lacks_common hc] using ⟨hindent, by simpa using hend⟩

theorem lacks_callParts (hlines : c ≠ '\t' ∧ c ≠ '\n') {callee : String} (h : lacks c callee)
    (es : List Expr) : allTexts (lacks c) (callParts callee es) := by
  have hargs : allTexts (lacks c) (argumentParts (onLines es) es) :=
    allTexts_argumentParts (lacks_ruled hc hlines (by decide)) (lacks_common hc (by decide)) _ es
  simp (disch := decide) [callParts, lacks_common hc, h, hargs]

theorem lacks_cases (hlines : c ≠ '\t' ∧ c ≠ '\n') (cases : List (SwitchCase Expr)) :
    allTexts (lacks c) (cases.flatMap caseParts) := by
  have hcase : lacks c "\t\t\tcase " := lacks_ruled hc hlines (by decide)
  have hcolon : lacks c ":\n" := lacks_ruled hc hlines (by decide)
  refine allTexts_flatMap.mpr fun k _ => allTexts_caseParts hcase hcolon (fun i => ?_)
    (lacks_ruled hc hlines (by decide)) (lacks_ruled hc hlines (by decide)) k
  simp only [lacks_append]
  exact ⟨⟨hcase, (isNumeralText_int i).lacks hc⟩, hcolon⟩

/-- A character that is not common is in the strings of a node, or stands where a
label is named, or where the lines of a statement, of a call or of a switch are
laid out. -/
theorem Node.lacks_layout {node : Node Expr} {mode : RenderMode}
    (hjump : c = 'L' → jumpOffset? node = none)
    (hlines : mode = .statement ∨ node.breaksLines → c ≠ '\t' ∧ c ≠ '\n')
    (h : ∀ s ∈ node.strings, lacks c s) (o : RenderOptions) :
    allTexts (lacks c) (node.layout o mode) := by
  have hwrap (hm : mode = .statement) : lacks c indentation ∧ lacks c terminator :=
    ⟨lacks_ruled hc (hlines (.inl hm)) (by decide), lacks_ruled hc (hlines (.inl hm)) (by decide)⟩
  have hlabel (n : UInt32) (hn : jumpOffset? node = some n) : lacks c (labelName n) :=
    lacks_labelName hc (fun hL => by rw [hjump hL] at hn; cases hn) n
  cases node
  case atom a =>
    by_cases ha : a = .endOfScript
    · simpa [layout, ha] using fun hm => lacks_ruled hc (hlines (.inl hm)) (by decide)
    · have htext : lacks c a.text := lacks_common hc (by cases a <;> decide)
      simp [layout, ha, htext]
  case var kind p => simpa [layout] using (p.madeOf_variableText o).lacks hc h
  case propertyConst p => simpa [layout] using p.madeOf_text.lacks hc h
  case int32 value => simpa [layout] using (isNumeralText_int _).lacks hc
  case int64 value => simpa [layout] using (isNumeralText_int _).lacks hc
  case uint64 value => simpa [layout] using (isNumeralText_nat _).lacks hc
  case skipOffset value => simpa [layout] using (isNumeralText_nat _).lacks hc
  case bitField inner value => simpa [layout] using (isNumeralText_nat _).lacks hc
  case byte kind value =>
    simpa (disch := decide) [layout, lacks_common hc] using lacks_hexDigits hc value
  case float value => simpa [layout] using value.isNumeralText_plainText.lacks hc
  case double value => simpa [layout] using value.isNumeralText_constantText.lacks hc
  case literal kind value => simpa [layout] using lacks_inQuotes hc (h value (by simp [strings]))
  case unicodeString value => simpa [layout] using h value (by simp [strings])
  case delegateName function =>
    simpa [layout] using lacks_inQuotes hc (h function (by simp [strings]))
  case text source => cases source <;> simp (disch := decide) [layout, lacks_common hc]
  case objectConst value => simpa [layout] using ObjectRef.lacks_findText hc h
  case vector value => simpa [layout] using value.lacks_text hc
  case vector3f value =>
    simpa [layout] using lacks_constructorText hc (by decide) (by simp [isNumeralText.lacks hc])
  case rotation value => simpa [layout] using value.lacks_text hc
  case transform value => simpa [layout] using value.lacks_text hc
  case struct type size fields =>
    have hfields : allTexts (lacks c) (fieldParts fields) :=
      allTexts_fieldParts (lacks_common hc (by decide)) fields
    simp (disch := decide) [layout, lacks_common hc, type.madeOf_typeName.lacks hc h, hfields]
  case array inner elements => exact lacks_containerParts hc .array elements
  case set inner elements => exact lacks_containerParts hc .set elements
  case map key value elements => exact lacks_containerParts hc .map elements
  case fill kind target elements =>
    simpa (disch := decide) [layout, lacks_common hc, lacks_containerParts hc] using hwrap
  case assign value target assignment => exact lacks_assignmentParts hc hlines target
  case letKind kind target assignment => exact lacks_assignmentParts hc hlines target
  case persistentLet destination assignment =>
    simpa (disch := decide) [layout, lacks_common hc, destination.madeOf_text.lacks hc h]
      using hwrap
  case memberOf member owner =>
    simp (disch := decide) [layout, lacks_common hc, member.madeOf_text.lacks hc h]
  case elementOf container position => simp (disch := decide) [layout, lacks_common hc]
  case context kind object offset result member =>
    cases kind
    case failSilent =>
      cases mode
      · simpa (disch := decide) [layout, lacks_common hc] using hwrap
      · simp [layout]
    all_goals simpa (disch := decide) [layout, lacks_common hc] using fun hm => (hwrap hm).2
  case classCast kind class_ operand =>
    simpa (disch := decide) [layout, lacks_common hc, class_.madeOf_typeName.lacks hc h] using hwrap
  case convert conversion operand =>
    have htext : lacks c conversion.text := lacks_common hc (by cases conversion <;> decide)
    cases conversion
    case objectToInterface => simp [layout]
    all_goals simpa [layout, htext] using hwrap
  case virtualCall kind function arguments =>
    have hname :=
      (madeOf_withoutSpaces (madeOf_of_mem (List.mem_singleton_self function))).lacks hc h
    simpa [layout, lacks_callParts hc (hlines (.inr rfl)) hname] using hwrap
  case finalCall kind function arguments =>
    have hbreaks := hlines (.inr rfl)
    have hcall := lacks_callParts hc hbreaks (function.madeOf_functionText.lacks hc h) arguments
    have hlast : lacks c ";\n" := lacks_ruled hc hbreaks (by decide)
    have howner : lacks c function.ownerLetter :=
      (function.madeOf_ownerLetter []).lacks hc (by simp)
    cases kind
    case math =>
      have hmath := lacks_callParts hc hbreaks (function.madeOf_mathText.lacks hc h) arguments
      simpa [layout, hmath] using hwrap
    case anywhere => simpa [layout, hcall, hlast] using fun hm => (hwrap hm).1
    case onSelf => simpa [layout, hcall, hlast, howner] using fun hm => (hwrap hm).1
  case changeDelegate change delegate operand =>
    have hmethod : lacks c change.method := lacks_common hc (by cases change <;> decide)
    simpa (disch := decide) [layout, lacks_common hc, hmethod] using fun _ => hwrap
  case clearDelegate delegate =>
    simpa (disch := decide) [layout, lacks_common hc] using hwrap
  case callDelegate signature delegate arguments =>
    have hcallee : lacks c ".Call" := lacks_common hc (by decide)
    simpa [layout, lacks_callParts hc (hlines (.inr rfl)) hcallee] using fun _ => hwrap
  case bindDelegate function delegate object =>
    have hname := lacks_inQuotes hc (h function (by simp [strings]))
    simpa (disch := decide) [layout, lacks_common hc, hname] using hwrap
  case ret operand =>
    have hspace : lacks c (if operand.node.isNothing then "" else " ") :=
      lacks_common hc (by split <;> decide)
    simpa (disch := decide) [layout, lacks_common hc, hspace] using hwrap
  case jump offset =>
    simpa (disch := decide) [layout, lacks_common hc, hlabel offset rfl] using hwrap
  case jumpIfNot offset condition =>
    simpa (disch := decide) [layout, lacks_common hc, hlabel offset rfl] using hwrap
  case computedJump offset =>
    cases hoffset : constantOffset? offset.node with
    | none => simpa (disch := decide) [layout, lacks_common hc, hoffset] using hwrap
    | some n =>
      simpa (disch := decide) [layout, lacks_common hc, hoffset, hlabel n hoffset] using hwrap
  case popFlowIfNot condition =>
    simpa (disch := decide) [layout, lacks_common hc] using hwrap
  case switch endOffset index default_ cases =>
    by_cases ht : isTernary cases
    · have hterms := allTexts_intersperse (lacks_common hc (by decide : " : ".toList.all isCommon))
        (ternaryTerms cases)
      simpa (disch := decide) [layout, ht, lacks_common hc, hterms] using hwrap
    · have hbreaks := hlines (.inr (by simp [breaksLines, ht]))
      have hbegin : lacks c ")\n\t\t\x7b\n" := lacks_ruled hc hbreaks (by decide)
      have hdefault : lacks c "\t\t\tdefault:\n\t\t\t\x7b\n\t\t\t    " :=
        lacks_ruled hc hbreaks (by decide)
      have hclose : lacks c "\n\t\t\t\x7d\n\t\t\x7d" := lacks_ruled hc hbreaks (by decide)
      have hlast : lacks c "\n\n" := lacks_ruled hc hbreaks (by decide)
      simpa (disch := decide) [layout, lacks_common hc, ht, hbegin, lacks_cases hc hbreaks,
        hdefault, hclose, hlast] using fun hm => (hwrap hm).1
  all_goals simp (disch := decide) [layout, lacks_common hc]

end

end Pseudocode
