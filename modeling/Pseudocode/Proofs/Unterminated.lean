import Mathlib.Data.List.Infix
import Pseudocode.Proofs.LayoutTexts
import Pseudocode.Proofs.StatementForms

/-! Expressions neither indent nor end a statement. A terminator in rendered text
would have to be written as such, or to come about where two writes meet. Texts
that cannot take part in either can be put together in any order; what a node
writes inside an expression are such texts, unless it assigns the result of a
call. -/

namespace Pseudocode

/-- A text that neither holds a terminator nor completes one before or behind it. -/
structure Unterminated (s : List Char) : Prop where
  within : ¬ ";\n\n".toList <:+: s
  atEnd : ¬ ";\n".toList <:+ s
  atBegin : ¬ "\n\n".toList <+: s
  noBreak : s ≠ ['\n']

instance (s : List Char) : Decidable (Unterminated s) :=
  decidable_of_iff
    (¬ ";\n\n".toList <:+: s ∧ ¬ ";\n".toList <:+ s ∧ ¬ "\n\n".toList <+: s ∧ s ≠ ['\n'])
    ⟨fun ⟨h₁, h₂, h₃, h₄⟩ => ⟨h₁, h₂, h₃, h₄⟩, fun ⟨h₁, h₂, h₃, h₄⟩ => ⟨h₁, h₂, h₃, h₄⟩⟩

namespace Unterminated

theorem of_not_mem {s : List Char} (h : '\n' ∉ s) : Unterminated s where
  within hs := h (hs.subset (by simp))
  atEnd hs := h (hs.subset (by simp))
  atBegin hs := h (hs.subset (by simp))
  noBreak hs := h (by simp [hs])

theorem not_suffix_append {s t : List Char} (hs : Unterminated s) (ht : Unterminated t) :
    ¬ ";\n".toList <:+ s ++ t := by
  intro h
  rcases Nat.le_total 2 t.length with hle | hle
  · exact ht.atEnd (List.suffix_of_suffix_length_le h (List.suffix_append s t) hle)
  · have hshort : t <:+ ";\n".toList :=
      List.suffix_of_suffix_length_le (List.suffix_append s t) h hle
    have hcases : t = [] ∨ t = ['\n'] ∨ t = [';', '\n'] := by
      simpa [List.suffix_cons_iff, or_comm, or_assoc] using hshort
    rcases hcases with rfl | rfl | rfl
    · exact hs.atEnd (by simpa using h)
    · exact ht.noBreak rfl
    · exact ht.atEnd (List.suffix_refl _)

theorem not_prefix_append {s t : List Char} (hs : Unterminated s) (ht : Unterminated t) :
    ¬ "\n\n".toList <+: s ++ t := by
  intro h
  rcases Nat.le_total 2 s.length with hle | hle
  · exact hs.atBegin (List.prefix_of_prefix_length_le h (List.prefix_append s t) hle)
  · have hshort : s <+: "\n\n".toList :=
      List.prefix_of_prefix_length_le (List.prefix_append s t) h hle
    have hcases : s = [] ∨ ∃ rest, s = '\n' :: rest ∧ (rest = [] ∨ rest = ['\n']) := by
      simpa [List.prefix_cons_iff] using hshort
    rcases hcases with rfl | ⟨rest, rfl, rfl | rfl⟩
    · exact ht.atBegin (by simpa using h)
    · exact hs.noBreak rfl
    · exact hs.atBegin (List.prefix_refl _)

/-- Putting texts together brings no terminator about. -/
theorem append {s t : List Char} (hs : Unterminated s) (ht : Unterminated t) :
    Unterminated (s ++ t) where
  within h := by
    rcases List.infix_append_iff_ne_nil.mp h with h | h | ⟨front, back, hfront, hback, hsplit,
      hend, hbegin⟩
    · exact hs.within h
    · exact ht.within h
    · rcases front with _ | ⟨a, _ | ⟨b, _ | ⟨c, front⟩⟩⟩
      · exact hfront rfl
      · obtain ⟨rfl, rfl⟩ : ';' = a ∧ ['\n', '\n'] = back := by simpa using hsplit
        exact ht.atBegin hbegin
      · obtain ⟨rfl, rfl, -⟩ : ';' = a ∧ '\n' = b ∧ ['\n'] = back := by simpa using hsplit
        exact hs.atEnd hend
      · simp_all
  atEnd := not_suffix_append hs ht
  atBegin := not_prefix_append hs ht
  noBreak h := by
    rcases List.append_eq_singleton_iff.mp h with ⟨-, rfl⟩ | ⟨rfl, -⟩
    · exact ht.noBreak rfl
    · exact hs.noBreak rfl

end Unterminated

def oneLine (s : String) : Prop := '\t' ∉ s.toList ∧ '\n' ∉ s.toList

instance (s : String) : Decidable (oneLine s) := inferInstanceAs (Decidable (_ ∧ _))

theorem oneLine.unterminated {s : String} (h : oneLine s) : Unterminated s.toList := .of_not_mem h.2

theorem isNumeralText.oneLine {s : String} (h : isNumeralText s) : oneLine s := by
  have hno (c : Char) (hdigit : c.isDigit = false) (hmark : c ∉ numeralMarks) : c ∉ s.toList := by
    intro hc
    rcases h c hc with hd | hm
    · rw [hdigit] at hd
      cases hd
    · exact hmark hm
  exact ⟨hno '\t' (by decide) (by decide), hno '\n' (by decide) (by decide)⟩

theorem madeOf.oneLine {ss : List String} {t : String} (h : madeOf ss t)
    (hss : ∀ s ∈ ss, oneLine s) : oneLine t :=
  ⟨h.not_mem (by decide) fun s hs => (hss s hs).1, h.not_mem (by decide) fun s hs => (hss s hs).2⟩

theorem oneLine_labelName (n : UInt32) : oneLine (labelName n) :=
  ⟨lacks_labelName (by decide) (by decide) n, lacks_labelName (by decide) (by decide) n⟩

theorem Node.oneLine_layout {node : Node Expr} (hbreaks : node.breaksLines = false)
    (h : ∀ s ∈ node.strings, oneLine s) (o : RenderOptions) :
    allTexts oneLine (node.layout o .expression) := by
  have hlines (c : Char) :
      RenderMode.expression = .statement ∨ node.breaksLines → c ≠ '\t' ∧ c ≠ '\n' := by
    simp [hbreaks]
  have htabs :=
    node.lacks_layout (c := '\t') (by decide) (by simp) (hlines _) (fun s hs => (h s hs).1) o
  have hfeeds :=
    node.lacks_layout (c := '\n') (by decide) (by simp) (hlines _) (fun s hs => (h s hs).2) o
  exact fun s hs => ⟨htabs s hs, hfeeds s hs⟩

theorem unterminated_argumentParts (lines : Bool) (es : List Expr) :
    allTexts (Unterminated ·.toList) (argumentParts lines es) :=
  allTexts_argumentParts (by decide) (by decide) lines es

theorem unterminated_caseParts (k : SwitchCase Expr) :
    allTexts (Unterminated ·.toList) (caseParts k) := by
  have hcase : Unterminated "\t\t\tcase ".toList := by decide
  have hcolon : Unterminated ":\n".toList := by decide
  refine allTexts_caseParts hcase hcolon (fun i => ?_) (by decide) (by decide) k
  have hvalue : Unterminated (toString i).toList := (isNumeralText_int i).oneLine.unterminated
  simpa using (hcase.append hvalue).append hcolon

/-- Whether the parts cannot begin with a tab, unless an operand does. -/
def beginsUntabbed : List Part → Prop
  | [] => True
  | .text s :: ps => s.toList.head? ≠ some '\t' ∧ (s = "" → beginsUntabbed ps)
  | .margin :: _ => False
  | .operand _ _ :: ps => beginsUntabbed ps

theorem oneLine.head_ne {s : String} (h : oneLine s) : s.toList.head? ≠ some '\t' :=
  fun ht => h.1 (List.mem_of_mem_head? ht)

theorem beginsUntabbed_of_oneLine {parts : List Part} (hplain : allPlain parts)
    (h : allTexts oneLine parts) : beginsUntabbed parts := by
  induction parts with
  | nil => trivial
  | cons p parts ih =>
    have hrest := ih (fun q hq => hplain q (List.mem_cons_of_mem _ hq)) fun s hs =>
      h s (List.mem_cons_of_mem _ hs)
    cases p with
    | text s => exact ⟨(h s List.mem_cons_self).head_ne, fun _ => hrest⟩
    | margin => exact hplain .margin List.mem_cons_self
    | operand m e => exact hrest

/-- Whether what a node writes itself neither ends a statement nor begins with an
indentation. -/
structure StaysInside (parts : List Part) : Prop where
  texts : allTexts (Unterminated ·.toList) parts
  begins : beginsUntabbed parts

theorem StaysInside.of_oneLine {parts : List Part} (hplain : allPlain parts)
    (h : allTexts oneLine parts) : StaysInside parts :=
  ⟨h.mono fun _ => oneLine.unterminated, beginsUntabbed_of_oneLine hplain h⟩

theorem beginsUntabbed_behind {parts : List Part} (hplain : allPlain parts)
    (h : allTexts oneLine parts) {s : String} (hs : s.toList.head? ≠ some '\t') (hne : s ≠ "")
    (rest : List Part) : beginsUntabbed (parts ++ .text s :: rest) := by
  induction parts with
  | nil => exact ⟨hs, fun he => absurd he hne⟩
  | cons p parts ih =>
    have hrest := ih (fun q hq => hplain q (List.mem_cons_of_mem _ hq)) fun s hs =>
      h s (List.mem_cons_of_mem _ hs)
    cases p with
    | text s => exact ⟨(h s List.mem_cons_self).head_ne, fun _ => hrest⟩
    | margin => exact hplain .margin List.mem_cons_self
    | operand m e => exact hrest

theorem staysInside_callParts {front : List Part} (hplain : allPlain front)
    (hfront : allTexts oneLine front) {callee : String} (h : oneLine callee) (es : List Expr) :
    StaysInside (front ++ callParts callee es) where
  texts := by
    have hopen : Unterminated "(".toList := by decide
    have hclose : Unterminated ")".toList := by decide
    have hargs := unterminated_argumentParts (onLines es) es
    simp only [callParts, allTexts_append, List.cons_append, allTexts_text, allTexts_nil,
      h.unterminated, hopen, hclose, hargs, hfront.mono fun _ => oneLine.unterminated, and_self]
  begins := by
    have hsplit : front ++ callParts callee es = (front ++ [.text callee]) ++ .text "(" ::
        (argumentParts (onLines es) es ++ [.text ")"]) := by simp [callParts]
    rw [hsplit]
    exact beginsUntabbed_behind (by simpa using hplain) (by simpa [h] using hfront) (by decide)
      (by decide) _

/-- The assignments that are ended wherever they stand: those of the result of a call. -/
def Node.assignsCall : Node Expr → Bool
  | .assign _ _ assignment | .letKind _ _ assignment => assignment.isCall
  | _ => false

theorem Node.staysInside_layout {node : Node Expr} (hcall : node.assignsCall = false)
    (h : ∀ s ∈ node.strings, oneLine s) (o : RenderOptions) :
    StaysInside (node.layout o .expression) := by
  by_cases hbreaks : node.breaksLines
  case neg =>
    exact .of_oneLine (node.allPlain_expression o)
      (node.oneLine_layout (by simpa using hbreaks) h o)
  cases node
  case virtualCall kind function arguments =>
    have hname :=
      (madeOf_withoutSpaces (madeOf_of_mem (List.mem_singleton_self function))).oneLine h
    simpa [layout, RenderMode.wrap, RenderMode.inStatement] using
      staysInside_callParts allPlain_nil allTexts_nil hname arguments
  case finalCall kind function arguments =>
    have hcallee := staysInside_callParts allPlain_nil allTexts_nil
      (function.madeOf_functionText.oneLine h) arguments
    cases kind
    case math =>
      have hmath := staysInside_callParts allPlain_nil allTexts_nil
        (function.madeOf_mathText.oneLine h) arguments
      simpa [layout, RenderMode.wrap, RenderMode.inStatement] using hmath
    all_goals simpa [layout, RenderMode.inStatement] using hcallee
  case callDelegate signature delegate arguments =>
    by_cases hd : delegate.node.isDelegateReceiver
    · have hcallee : StaysInside ([.inside delegate] ++ callParts ".Call" arguments) :=
        staysInside_callParts (by simp) (by simp) (by decide) arguments
      simpa [layout, hd, RenderMode.wrap, RenderMode.inStatement] using hcallee
    · simpa [layout, hd] using StaysInside.of_oneLine allPlain_nil allTexts_nil
  case switch endOffset index default_ cases =>
    have ht : isTernary cases = false := by simpa [breaksLines] using hbreaks
    have hcases : allTexts (Unterminated ·.toList) (cases.flatMap caseParts) :=
      allTexts_flatMap.mpr fun k _ => unterminated_caseParts k
    have hswitch : Unterminated "switch (".toList := by decide
    have hbegin : Unterminated ")\n\t\t\x7b\n".toList := by decide
    have hdefault : Unterminated "\t\t\tdefault:\n\t\t\t\x7b\n\t\t\t    ".toList := by decide
    have hend : Unterminated "\n\t\t\t\x7d\n\t\t\x7d".toList := by decide
    have htexts : allTexts (Unterminated ·.toList)
        (.text "switch (" :: .inside index :: .text ")\n\t\t\x7b\n" :: cases.flatMap caseParts ++
        [.text "\t\t\tdefault:\n\t\t\t\x7b\n\t\t\t    ", .inside default_,
        .text "\n\t\t\t\x7d\n\t\t\x7d"]) := by
      simp only [List.cons_append, allTexts_text, allTexts_operand, allTexts_append, allTexts_nil,
        hswitch, hbegin, hcases, hdefault, hend, and_self]
    refine ⟨by simpa [layout, ht, RenderMode.inStatement] using htexts, ?_⟩
    simp only [layout, ht, RenderMode.inStatement]
    exact ⟨by decide, fun he => absurd he (by decide)⟩
  case assign value target assignment => cases hcall.symm.trans hbreaks
  case letKind kind target assignment => cases hcall.symm.trans hbreaks
  all_goals cases hbreaks

theorem unterminated_labelLine (n : UInt32) : Unterminated (labelLine n .expression).toList := by
  have hname : Unterminated (labelName n).toList := (oneLine_labelName n).unterminated
  rw [labelLine, String.toList_append]
  exact hname.append (by decide)

/-- Parts are written without terminators if they and their operands are. What
they begin with is what the first of them that writes anything begins with. -/
theorem unterminated_parts {o : RenderOptions} {parts : List Part} (hplain : allPlain parts)
    (htexts : allTexts (Unterminated ·.toList) parts)
    (hoperands : ∀ c, .inside c ∈ parts → ∀ r : Renderer,
      Unterminated (eventsText (r.log (c.pieces o .expression))).toList ∧
        (eventsText (r.log (c.pieces o .expression))).toList.head? ≠ some '\t') (r : Renderer) :
    Unterminated (eventsText (r.log (parts.flatMap (Part.pieces o)))).toList ∧
      (beginsUntabbed parts → (eventsText (r.log (parts.flatMap (Part.pieces o)))).toList.head? ≠
        some '\t') := by
  induction parts generalizing r with
  | nil =>
    exact ⟨(by decide : Unterminated []), fun _ => (by decide : ([] : List Char).head? ≠ some '\t')⟩
  | cons p parts ih =>
    obtain ⟨hopen, hbegins⟩ := ih (fun q hq => hplain q (List.mem_cons_of_mem _ hq)) (fun s hs =>
      htexts s (List.mem_cons_of_mem _ hs)) (fun c hc => hoperands c (List.mem_cons_of_mem _ hc))
      ((Part.pieces o p).foldl Renderer.put r)
    rw [List.flatMap_cons, Renderer.log_append, eventsText_append, String.toList_append,
      List.head?_append]
    cases p with
    | text s =>
      have hs : eventsText (r.log (Part.pieces o (.text s))) = s := by
        simp [Part.pieces, Renderer.log, Renderer.events, eventsText, Event.text]
      rw [hs]
      refine ⟨(htexts s List.mem_cons_self).append hopen, fun hfirst => ?_⟩
      obtain ⟨hhead, hrest⟩ := hfirst
      by_cases hempty : s = ""
      · simpa [hempty] using hbegins (hrest hempty)
      · have hne : s.toList ≠ [] := by simpa using hempty
        simpa [List.head?_eq_some_head hne] using hhead
    | margin => exact absurd (hplain .margin List.mem_cons_self) id
    | operand m c =>
      obtain rfl : m = .expression := hplain _ List.mem_cons_self
      obtain ⟨hoperand, hhead⟩ := hoperands c List.mem_cons_self r
      refine ⟨hoperand.append hopen, fun hrest => ?_⟩
      simpa [Part.pieces, Option.or_eq_some_iff, hhead] using fun _ => hbegins hrest

theorem Expr.unterminated_pieces {o : RenderOptions} {mode : RenderMode}
    (hmode : mode = .expression) {e : Expr} (hcalls : ∀ x ∈ e.walk, x.node.assignsCall = false)
    (hstrings : ∀ x ∈ e.walk, ∀ s ∈ x.node.strings, oneLine s) (r : Renderer) :
    Unterminated (eventsText (r.log (e.pieces o mode))).toList ∧
      (eventsText (r.log (e.pieces o mode))).toList.head? ≠ some '\t' := by
  induction mode, e using Expr.render_induction (o := o) generalizing r with
  | h mode e ih =>
    subst hmode
    have hlayout :=
      Node.staysInside_layout (hcalls e e.self_mem_walk) (hstrings e e.self_mem_walk) o
    obtain ⟨hopen, hbegins⟩ :=
      unterminated_parts (e.node.allPlain_expression o) hlayout.texts (fun c hc r =>
        ih .expression c hc rfl (fun x hx => hcalls x (walk_subset_of_operand hc hx)) (fun x hx =>
        hstrings x (walk_subset_of_operand hc hx)) r) (r.put (.enter e.index .expression))
    rw [e.pieces_eq, Renderer.log, eventsText_append, String.toList_append]
    cases hw : r.wants e.index with
    | false =>
      have hnone : eventsText (r.events (.enter e.index .expression)) = "" := by
        simp [Renderer.events, hw, eventsText, Event.text]
      simpa [hnone] using ⟨hopen, hbegins hlayout.begins⟩
    | true =>
      have hlabel :
          eventsText (r.events (.enter e.index .expression)) = labelLine e.index .expression := by
        simp [Renderer.events, hw, eventsText, Event.text]
      have hfirst : (labelLine e.index .expression).toList.head? = some 'L' := by
        simp [labelLine, labelName, String.toList_append]
      rw [hlabel, List.head?_append, hfirst]
      exact ⟨(unterminated_labelLine e.index).append hopen, by simp⟩

/-- Inside an expression nothing is indented and nothing is ended, whatever its
strings, but for assignments of the result of a call. -/
theorem expression_unterminated {e : Expr} (hcalls : ∀ x ∈ e.walk, x.node.assignsCall = false)
    (hstrings : ∀ x ∈ e.walk, ∀ s ∈ x.node.strings, '\t' ∉ s.toList ∧ '\n' ∉ s.toList)
    (targets : List UInt32) (o : RenderOptions) :
    (renderExpression e targets .expression o).toList.head? ≠ some '\t' ∧
      ¬ ";\n\n".toList <:+: (renderExpression e targets .expression o).toList := by
  obtain ⟨hopen, hhead⟩ := Expr.unterminated_pieces rfl hcalls hstrings { targets, options := o }
  rw [renderExpression_eq]
  exact ⟨hhead, hopen.within⟩

def semicolonSwitch : Expr :=
  ⟨0, .switch 0 ⟨1, .var .stackLocal (.legacy "Choice")⟩ ⟨5, .unicodeString ";"⟩
    [⟨⟨2, .literal .name "One"⟩, 0, ⟨3, .virtualCall .anywhere "Wait For" [⟨4, .atom .intOne⟩]⟩⟩]⟩

theorem expression_unterminated_semicolonSwitch :
    (∀ x ∈ semicolonSwitch.walk, x.node.assignsCall = false) ∧
    (∀ x ∈ semicolonSwitch.walk, ∀ s ∈ x.node.strings, '\t' ∉ s.toList ∧ '\n' ∉ s.toList) ∧
    (renderExpression semicolonSwitch [5] .expression ⟨false⟩).toList.head? ≠ some '\t' ∧
    ¬ ";\n\n".toList <:+: (renderExpression semicolonSwitch [5] .expression ⟨false⟩).toList := by
  have hcalls : ∀ x ∈ semicolonSwitch.walk, x.node.assignsCall = false := by
    simp [semicolonSwitch, Expr.walk_eq, Expr.children, Node.children, Node.assignsCall]
  have hstrings : ∀ x ∈ semicolonSwitch.walk, ∀ s ∈ x.node.strings, '\t' ∉ s.toList ∧
      '\n' ∉ s.toList := by
    simp [semicolonSwitch, Expr.walk_eq, Expr.children, Node.children, Node.strings,
      PropertyPointer.strings, PropertyPointer.legacy]
  exact ⟨hcalls, hstrings, expression_unterminated hcalls hstrings [5] ⟨false⟩⟩

end Pseudocode
