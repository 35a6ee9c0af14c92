import Pseudocode.Proofs.ClassNavigation
import Pseudocode.Proofs.StatementForms

/-! The branches of a switch. Where nothing jumps anywhere, an expression is the
texts of its parts put together, so that the text of a switch can be read off its
layout: as a choice between two values it has the terms of its cases and no
default, else it has a block for each case and one for the default. -/

namespace Pseudocode

def Expr.inlineText (o : RenderOptions) (e : Expr) : String := renderExpression e [] .expression o

def Part.inlineText (o : RenderOptions) : Part → String
  | .text s => s
  | .margin => ""
  | .operand _ e => e.inlineText o

theorem eventsText_plain {r : Renderer} (hr : r.targets = []) {parts : List Part}
    (hplain : allPlain parts) (o : RenderOptions) :
    eventsText (r.log (parts.flatMap (Part.pieces o))) =
      String.join (parts.map (Part.inlineText o)) := by
  induction parts generalizing r with
  | nil => rfl
  | cons p parts ih =>
    have hrest := ih (r := (p.pieces o).foldl Renderer.put r) (by simpa using hr)
      fun q hq => hplain q (List.mem_cons_of_mem _ hq)
    rw [List.flatMap_cons, Renderer.log_append, eventsText_append, hrest, List.map_cons,
      String.join_cons]
    congr 1
    cases p with
    | text s =>
      simp [Part.pieces, Renderer.log, Renderer.events, eventsText, Event.text, Part.inlineText]
    | margin => exact absurd (hplain .margin List.mem_cons_self) id
    | operand m e =>
      obtain rfl : m = .expression := hplain _ List.mem_cons_self
      rw [Part.inlineText, Expr.inlineText, renderExpression_eq]
      exact congrArg eventsText (log_expression e fun n => by simp [Renderer.wants, hr])

theorem Expr.inlineText_eq (o : RenderOptions) (e : Expr) :
    e.inlineText o = String.join ((e.node.layout o .expression).map (Part.inlineText o)) := by
  rw [inlineText, renderExpression_unlabelled (by simp)]
  exact eventsText_plain rfl (e.node.allPlain_expression o) o

theorem inlineText_separated (separator : String) (es : List Expr) (o : RenderOptions) :
    String.join (((es.map Part.inside).intersperse (.text separator)).map (Part.inlineText o)) =
      separator.intercalate (es.map (Expr.inlineText o)) := by
  induction es with
  | nil => rfl
  | cons e es ih =>
    cases es with
    | nil => simp [Part.inlineText]
    | cons e' es =>
      simp only [List.map_cons] at ih ⊢
      rw [String.intercalate_cons_cons, ← ih]
      simp [Part.inlineText, String.join_cons, String.append_assoc]

def SwitchCase.inlineText (o : RenderOptions) (c : SwitchCase Expr) : String :=
  "\t\t\tcase " ++ c.key.inlineText o ++ ":\n\t\t\t\x7b\n\t\t\t    " ++ c.term.inlineText o ++
    ";\n\t\t\t    break;\n\t\t\t\x7d\n"

theorem Expr.inlineText_of_int? {e : Expr} {value : Int32} (h : e.node.int? = some value)
    (o : RenderOptions) : e.inlineText o = toString value.toInt := by
  have hnode : e.node = .int32 value := by
    unfold Node.int? at h
    split at h
    · rw [‹e.node = _›, Option.some.inj h]
    · cases h
  rw [inlineText_eq, hnode]
  simp [Node.layout, Part.inlineText]

theorem inlineText_caseParts (c : SwitchCase Expr) (o : RenderOptions) :
    String.join ((caseParts c).map (Part.inlineText o)) = c.inlineText o := by
  cases h : c.key.node.int? with
  | none =>
    simp [caseParts, h, Part.inlineText, SwitchCase.inlineText, String.join_cons, String.ext_iff]
  | some value =>
    have hkey := Expr.inlineText_of_int? h o
    simp [caseParts, h, hkey, Part.inlineText, SwitchCase.inlineText, String.join_cons,
      String.ext_iff]

theorem inlineText_cases (cases : List (SwitchCase Expr)) (o : RenderOptions) :
    String.join ((cases.flatMap caseParts).map (Part.inlineText o)) =
      String.join (cases.map (SwitchCase.inlineText o)) := by
  induction cases with
  | nil => rfl
  | cons c cases ih =>
    rw [List.flatMap_cons, List.map_append, String.join_append, ih, inlineText_caseParts,
      List.map_cons, String.join_cons]

theorem inlineText_choice {cases : List (SwitchCase Expr)} (h : isTernary cases = true)
    (position endOffset : UInt32) (index default_ : Expr) (o : RenderOptions) :
    Expr.inlineText o ⟨position, .switch endOffset index default_ cases⟩ =
      index.inlineText o ++ " ? " ++
        " : ".intercalate ((ternaryTerms cases).map (Expr.inlineText o)) := by
  rw [Expr.inlineText_eq]
  simp [Node.layout, h, RenderMode.wrap, RenderMode.inStatement, Part.inlineText, String.join_cons,
    inlineText_separated, String.append_assoc]

theorem inlineText_blocks {cases : List (SwitchCase Expr)} (h : isTernary cases = false)
    (position endOffset : UInt32) (index default_ : Expr) (o : RenderOptions) :
    Expr.inlineText o ⟨position, .switch endOffset index default_ cases⟩ =
      "switch (" ++ index.inlineText o ++ ")\n\t\t\x7b\n" ++
        String.join (cases.map (SwitchCase.inlineText o)) ++
        "\t\t\tdefault:\n\t\t\t\x7b\n\t\t\t    " ++ default_.inlineText o ++
          "\n\t\t\t\x7d\n\t\t\x7d" := by
  rw [Expr.inlineText_eq]
  simp [Node.layout, h, RenderMode.inStatement, Part.inlineText, String.join_cons,
    String.join_append, inlineText_cases, String.append_assoc]

theorem isTernary_iff (cases : List (SwitchCase Expr)) :
    isTernary cases = true ↔ cases.length ≤ 2 ∧ ∀ c ∈ cases, c.key.node.truth?.isSome := by
  simp [isTernary]

theorem mem_ternaryTerms {cases : List (SwitchCase Expr)} (h : isTernary cases = true)
    {c : SwitchCase Expr} (hc : c ∈ cases) : c.term ∈ ternaryTerms cases := by
  obtain ⟨b, hb⟩ := Option.isSome_iff_exists.mp (((isTernary_iff cases).mp h).2 c hc)
  have hbranch : c.term ∈ branches b cases := by
    rw [branches, List.mem_map]
    exact ⟨c, List.mem_filter.mpr ⟨hc, by simp [hb]⟩, rfl⟩
  rw [ternaryTerms, List.mem_append]
  cases b with
  | true => exact .inl hbranch
  | false => exact .inr hbranch

theorem inlineText_choice_term {cases : List (SwitchCase Expr)} (h : isTernary cases = true)
    {c : SwitchCase Expr} (hc : c ∈ cases) (position endOffset : UInt32) (index default_ : Expr)
    (o : RenderOptions) :
    ∃ before after, Expr.inlineText o ⟨position, .switch endOffset index default_ cases⟩ =
      before ++ c.term.inlineText o ++ after := by
  have hmem := List.mem_map_of_mem (f := Expr.inlineText o) (mem_ternaryTerms h hc)
  obtain ⟨i, hi⟩ := List.mem_iff_getElem?.mp hmem
  obtain ⟨front, rest, hterms⟩ :
    ∃ front rest, " : ".intercalate ((ternaryTerms cases).map (Expr.inlineText o)) =
    front ++ c.term.inlineText o ++ rest := ⟨_, intercalate_split " : " hi⟩
  rw [inlineText_choice h, hterms]
  exact ⟨index.inlineText o ++ " ? " ++ front, rest, by simp only [String.append_assoc]⟩

theorem inlineText_blocks_term {cases : List (SwitchCase Expr)} (h : isTernary cases = false)
    {c : SwitchCase Expr} (hc : c ∈ cases) (position endOffset : UInt32) (index default_ : Expr)
    (o : RenderOptions) :
    ∃ before after, Expr.inlineText o ⟨position, .switch endOffset index default_ cases⟩ =
      before ++ c.term.inlineText o ++ after := by
  obtain ⟨front, back, rfl⟩ := List.append_of_mem hc
  rw [inlineText_blocks h, List.map_append, List.map_cons, String.join_append, String.join_cons]
  exact ⟨"switch (" ++ index.inlineText o ++ ")\n\t\t\x7b\n" ++
    String.join (front.map (SwitchCase.inlineText o)) ++ "\t\t\tcase " ++
    c.key.inlineText o ++ ":\n\t\t\t\x7b\n\t\t\t    ",
    ";\n\t\t\t    break;\n\t\t\t\x7d\n" ++ String.join (back.map (SwitchCase.inlineText o)) ++
    "\t\t\tdefault:\n\t\t\t\x7b\n\t\t\t    " ++ default_.inlineText o ++
    "\n\t\t\t\x7d\n\t\t\x7d", by simp only [SwitchCase.inlineText, String.append_assoc]⟩

/-- The terms of all cases are in the text of a switch that nothing jumps into,
and so is its default, unless the switch is written as a choice between two
values. That has the terms of its cases alone, the true ones in front of the
others. -/
theorem switch_keeps_branches (position endOffset : UInt32) (index default_ : Expr)
    (cases : List (SwitchCase Expr)) (o : RenderOptions) :
    let text := fun e : Expr => renderExpression e [] .expression o
    let whole := text ⟨position, .switch endOffset index default_ cases⟩
    let isChoice := cases.length ≤ 2 ∧ ∀ c ∈ cases, c.key.node.truth?.isSome
    (∀ c ∈ cases, ∃ before after, whole = before ++ text c.term ++ after) ∧
    (¬ isChoice → ∃ before after, whole = before ++ text default_ ++ after) ∧
    (isChoice → whole = text index ++ " ? " ++
      " : ".intercalate ((branches true cases ++ branches false cases).map text)) := by
  intro text whole isChoice
  cases h : isTernary cases with
  | true =>
    have hchoice : isChoice := (isTernary_iff cases).mp h
    refine ⟨fun c hc => inlineText_choice_term h hc position endOffset index default_ o,
      fun hno => absurd hchoice hno, fun _ => ?_⟩
    exact inlineText_choice h position endOffset index default_ o
  | false =>
    have hno : ¬ isChoice :=
      fun hchoice => Bool.false_ne_true (h.symm.trans ((isTernary_iff cases).mpr hchoice))
    refine ⟨fun c hc => inlineText_blocks_term h hc position endOffset index default_ o, fun _ =>
      ?_, fun hchoice => absurd hchoice hno⟩
    exact ⟨_, "\n\t\t\t\x7d\n\t\t\x7d", inlineText_blocks h position endOffset index default_ o⟩

def readySwitch (cases : List (SwitchCase Expr)) : Expr :=
  ⟨0, .switch 40 ⟨1, .var .stackLocal (.legacy "Ready")⟩ ⟨6, .literal .string "No"⟩ cases⟩

def yesCase (key : Atom) : SwitchCase Expr := ⟨⟨2, .atom key⟩, 0, ⟨3, .literal .string "Yes"⟩⟩

theorem switch_keeps_branches_of_three :
    let text := fun e : Expr => renderExpression e [] .expression ⟨false⟩
    let cases := [yesCase .trueConst, yesCase .falseConst, yesCase .trueConst]
    yesCase .falseConst ∈ cases ∧ ¬ (cases.length ≤ 2 ∧ ∀ c ∈ cases, c.key.node.truth?.isSome) ∧
    (∃ before after, text (readySwitch cases) =
      before ++ text ⟨3, .literal .string "Yes"⟩ ++ after) ∧
    ∃ before after, text (readySwitch cases) =
      before ++ text ⟨6, .literal .string "No"⟩ ++ after := by
  intro text cases
  have hcase : yesCase .falseConst ∈ cases := by simp [cases]
  have hblocks : ¬ (cases.length ≤ 2 ∧ ∀ c ∈ cases, c.key.node.truth?.isSome) := by simp [cases]
  obtain ⟨hterms, hdefault, -⟩ := switch_keeps_branches 0 40 ⟨1, .var .stackLocal (.legacy "Ready")⟩
    ⟨6, .literal .string "No"⟩ cases ⟨false⟩
  exact ⟨hcase, hblocks, hterms _ hcase, hdefault hblocks⟩

/-- A choice with a true case alone does not say what the value is otherwise. -/
theorem switch_drops_default :
    (∀ c ∈ [yesCase .trueConst], c.key.node.truth? ≠ some false) ∧
    renderExpression (readySwitch [yesCase .trueConst]) [] .expression ⟨false⟩ = "Ready ? \"Yes\"" ∧
    ¬ ∃ before after, renderExpression (readySwitch [yesCase .trueConst]) [] .expression ⟨false⟩ =
      before ++ renderExpression ⟨6, .literal .string "No"⟩ [] .expression ⟨false⟩ ++ after := by
  have hwhole : renderExpression (readySwitch [yesCase .trueConst]) [] .expression ⟨false⟩ =
      "Ready ? \"Yes\"" := by
    cbv
  have hdefault : renderExpression ⟨6, .literal .string "No"⟩ [] .expression ⟨false⟩ =
      "\"No\"" := by
    cbv
  refine ⟨by simp [yesCase, Node.truth?], hwhole, ?_⟩
  rintro ⟨before, after, hsplit⟩
  rw [hwhole, hdefault] at hsplit
  have hin : 'N' ∈ "Ready ? \"Yes\"".toList := by simp [hsplit]
  exact absurd hin (by decide)

end Pseudocode
