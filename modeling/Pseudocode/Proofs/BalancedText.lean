import Pseudocode.Proofs.BalancedLayouts

/-! The brackets of rendered text are properly nested, if the strings of the
dump have none. Operands are nested, so a node is nested with them in their
places, and labels have no brackets. -/

namespace Pseudocode

/-- Whether an expression, rendered as a statement, closes its function: by
itself, or as the operand that it is rendered as. -/
def Expr.reachesEnd : Expr → Bool
  | ⟨_, .wrapper _ operand⟩ => operand.reachesEnd
  | ⟨_, .convert .objectToInterface operand⟩ => operand.reachesEnd
  | ⟨_, node⟩ => node.opcode = .endOfScript

theorem Expr.reachesEnd_of_passedOn {e c : Expr} (h : e.node.passedOn? = some c) :
    e.reachesEnd = c.reachesEnd := by
  obtain ⟨index, node⟩ := e
  cases node <;> simp only [Node.passedOn?, Option.some.injEq, reduceCtorEq] at h
  case wrapper kind operand => rw [reachesEnd, h]
  case convert conversion operand =>
    cases conversion <;> simp only [Option.some.injEq, reduceCtorEq] at h
    rw [reachesEnd, h]

theorem Expr.reachesEnd_of_opcode {e : Expr} (h : e.opcode = .endOfScript) :
    e.reachesEnd = true := by
  obtain ⟨index, node⟩ := e
  obtain rfl : node = .atom .endOfScript := Node.eq_of_endOfScript h
  rfl

theorem Expr.reachesEnd_of_operand {o : RenderOptions} {mode m : RenderMode} {e c : Expr}
    (hc : .operand m c ∈ e.node.layout o mode) (h : mode = .statement → e.reachesEnd = false) :
    m = .statement → c.reachesEnd = false := by
  rintro rfl
  rcases Node.operand_mode hc with hm | ⟨hm, hpassed, -⟩
  · cases hm
  · rw [← reachesEnd_of_passedOn hpassed]
    exact h hm.symm

def nestedPieces (ps : List Piece) : Prop :=
  ∀ r : Renderer, Nested (bracketsOf (eventsText (r.log ps)))

theorem nestedPieces_append {ps qs : List Piece} (hp : nestedPieces ps) (hq : nestedPieces qs) :
    nestedPieces (ps ++ qs) := by
  intro r
  rw [Renderer.log_append, eventsText_append]
  exact nested_append (hp r) (hq (ps.foldl Renderer.put r))

theorem bracketsOf_labelLine (offset : UInt32) (mode : RenderMode) :
    bracketsOf (labelLine offset mode) = [] := by
  have hmarks : bracketsOf indentation = [] ∧ bracketsOf ":\n" = [] := by decide
  cases mode <;> simp [labelLine, hmarks]

theorem nestedPieces_enter (offset : UInt32) (mode : RenderMode) :
    nestedPieces [.enter offset mode] := by
  intro r
  by_cases hw : r.wants offset = true
  · simpa [Renderer.log, Renderer.events, hw, eventsText, Event.text, bracketsOf_labelLine]
      using Nested.nil
  · simpa [Renderer.log, Renderer.events, hw, eventsText, Event.text] using Nested.nil

/-- With nested operands in their places, the parts of a node owe the brackets
that the node owes by itself. -/
theorem owed_parts {o : RenderOptions} {parts : List Part}
    (h : ∀ m c, .operand m c ∈ parts → nestedPieces (c.pieces o m)) (r : Renderer)
    (before : List Char) :
    owed before (bracketsOf (eventsText (r.log (parts.flatMap (Part.pieces o))))) =
      owed before (ownBrackets parts) := by
  induction parts generalizing r before with
  | nil => rfl
  | cons p parts ih =>
    have hrest (r : Renderer) (before : List Char) :=
      ih (fun m c hc => h m c (List.mem_cons_of_mem _ hc)) r before
    rw [List.flatMap_cons, Renderer.log_append, eventsText_append, bracketsOf_append, owed_append]
    simp only [hrest]
    cases p with
    | text s =>
      simp [Part.pieces, Renderer.log, Renderer.events, eventsText, Event.text, owed_append]
    | margin =>
      have hindent : bracketsOf indentation = [] := by decide
      by_cases hl : r.atLineStart = true <;>
        simp [Part.pieces, Renderer.log, Renderer.events, eventsText, Event.text, hl, hindent]
    | operand m c =>
      have hc := h m c List.mem_cons_self r
      simp [Part.pieces, hc.owed_eq]

theorem Expr.nested_pieces (o : RenderOptions) (mode : RenderMode) (e : Expr)
    (hend : mode = .statement → e.reachesEnd = false)
    (hstrings : ∀ x ∈ e.walk, ∀ s ∈ x.node.strings, bracketFree s) :
    nestedPieces (e.pieces o mode) := by
  induction mode, e using Expr.render_induction (o := o) with
  | h mode e ih =>
    have hoperands (m : RenderMode) (c : Expr) (hc : .operand m c ∈ e.node.layout o mode) :
        nestedPieces (c.pieces o m) :=
      ih m c hc (reachesEnd_of_operand hc hend) fun x hx =>
        hstrings x (walk_subset_of_operand hc hx)
    have hopcode : mode = .statement → e.node.opcode ≠ .endOfScript := by
      intro hm ho
      rw [reachesEnd_of_opcode ho] at hend
      cases hend hm
    have hown := Node.nested_layout hopcode (hstrings e e.self_mem_walk) o
    have hparts : nestedPieces ((e.node.layout o mode).flatMap (Part.pieces o)) := by
      intro r
      rw [nested_iff_owed, owed_parts hoperands]
      exact (nested_iff_owed _).mp hown
    have hall := nestedPieces_append (nestedPieces_enter e.index mode) hparts
    rwa [List.singleton_append, ← e.pieces_eq] at hall

theorem nested_scriptPieces (o : RenderOptions) {script : List Expr}
    (hend : ∀ e ∈ script, e.reachesEnd = false)
    (hstrings : ∀ s ∈ scriptStrings script, bracketFree s) :
    nestedPieces (scriptPieces o script) := by
  induction script with
  | nil => exact fun _ => .nil
  | cons e script ih =>
    have he : nestedPieces (e.pieces o .statement) := by
      refine e.nested_pieces o .statement (fun _ => hend e List.mem_cons_self) fun x hx s hs =>
        hstrings s ?_
      simp only [scriptStrings, scriptWalk, List.flatMap_cons, List.flatMap_append]
      exact List.mem_append_left _ (List.mem_flatMap.mpr ⟨x, hx, hs⟩)
    have hrest := ih (fun x hx => hend x (List.mem_cons_of_mem _ hx)) fun s hs => hstrings s (by
      simp only [scriptStrings, scriptWalk, List.flatMap_cons, List.flatMap_append] at hs ⊢
      exact List.mem_append_right _ hs)
    exact nestedPieces_append he hrest

theorem nested_flag {b : Bool} {s : String} (h : bracketFree s) :
    Nested (bracketsOf (if b then s else "")) := by
  cases b
  · exact .nil
  · exact h.nested

theorem PropertyDesc.name_mem_strings (p : PropertyDesc) : p.name ∈ p.strings := by
  obtain ⟨name, flags, kind⟩ := p
  simp [strings]

theorem PropertyDesc.nested_parameterText {p : PropertyDesc} (h : ∀ s ∈ p.strings, bracketFree s) :
    Nested (bracketsOf p.parameterText) := by
  have hname := (h p.name p.name_mem_strings).nested
  exact nested_append (nested_append (nested_append (nested_append (nested_flag (by decide))
    (p.nested_displayName h)) (nested_flag (by decide))) (by decide)) hname

theorem ScriptFunction.nested_signature {f : ScriptFunction} (h : ∀ s ∈ f.strings, bracketFree s) :
    Nested (bracketsOf f.signature) := by
  have hproperty (p : PropertyDesc) (hp : p ∈ f.returnProperty.toList ++ f.parameters) :
      ∀ s ∈ p.strings, bracketFree s := by
    intro s hs
    refine h s (List.mem_append_left _ (List.mem_cons_of_mem _ ?_))
    exact List.mem_flatMap.mpr ⟨p, hp, hs⟩
  have hname := (h f.name (by simp [strings])).nested
  have hparameters :
      ∀ t ∈ (f.parameters.filter fun p => !p.flags.contains .returnParm).map (·.parameterText),
      Nested (bracketsOf t) := by
    refine List.forall_mem_map.mpr fun p hp => PropertyDesc.nested_parameterText (hproperty p ?_)
    exact List.mem_append_right _ (List.mem_of_mem_filter hp)
  have hcommas := nested_intercalate (by decide : bracketsOf ", " = []) hparameters
  have hlist :=
    nested_enclosed (o := '(') (c := ')') (s := "(") (u := ")") rfl (by decide) (by decide) hcommas
  have hrest := nested_append hname hlist
  cases hr : f.returnProperty with
  | none =>
    have hvoid : Nested (bracketsOf "void ") := by decide
    simpa [signature, hr] using nested_append hvoid hrest
  | some p =>
    have htype := p.nested_displayName (hproperty p (by simp [hr]))
    have hspace : Nested (bracketsOf " ") := by decide
    simpa [signature, hr] using nested_append (nested_append htype hspace) hrest

/-- A script closes its function at most once: no statement but the last one does,
and the last one does nothing else. -/
structure ClosesOnce (script : List Expr) : Prop where
  dropLast : ∀ e ∈ script.dropLast, e.reachesEnd = false
  getLast : ∀ e ∈ script.getLast?, e.reachesEnd → e.opcode = .endOfScript

theorem ClosesOnce.reachesEnd_eq_false {script : List Expr} (h : ClosesOnce script) :
    ∀ e ∈ openStatements script, e.reachesEnd = false := by
  intro e he
  cases hends : endsScript script with
  | true => exact h.dropLast e (by simpa [openStatements, hends] using he)
  | false =>
    replace he : e ∈ script := by simpa [openStatements, hends] using he
    have hne := List.ne_nil_of_mem he
    have hlast := List.getLast?_eq_some_getLast hne
    rw [← List.dropLast_concat_getLast hne] at he
    rcases List.mem_append.mp he with he | he
    · exact h.dropLast e he
    · obtain rfl := List.mem_singleton.mp he
      by_contra hreaches
      have hopcode := h.getLast _ hlast (by simpa using hreaches)
      simp [endsScript, hlast, hopcode] at hends

theorem ScriptFunction.render_braces {f : ScriptFunction} (h : ∀ s ∈ f.strings, bracketFree s)
    (hcloses : ClosesOnce f.script) (o : RenderOptions) :
    ∃ body, Nested body ∧ bracketsOf (f.render o) =
      bracketsOf f.signature ++ '\x7b' :: (body ++ ['\x7d']) := by
  have hstrings : ∀ s ∈ scriptStrings (openStatements f.script), bracketFree s := by
    intro s hs
    obtain ⟨x, hx, hs⟩ := List.mem_flatMap.mp hs
    obtain ⟨e, he, hx⟩ := List.mem_flatMap.mp hx
    have hscript : x ∈ scriptWalk f.script :=
      List.mem_flatMap.mpr ⟨e, openStatements_subset _ he, hx⟩
    exact h s (List.mem_append_right _ (List.mem_flatMap.mpr ⟨x, hscript, hs⟩))
  have hmarks : bracketsOf "\t" = [] ∧ bracketsOf "\n\t\x7b\n" = ['\x7b'] ∧ bracketsOf "\t\x7d\n" =
      ['\x7d'] := by
    decide
  have hhead : bracketsOf f.head = bracketsOf f.signature ++ ['\x7b'] := by simp [head, hmarks]
  obtain ⟨label, hlabel, htext⟩ := f.render_closed o
  have hlabel' : bracketsOf label = [] := by
    rcases hlabel with rfl | ⟨n, rfl⟩
    · rfl
    · exact bracketsOf_labelLine n .statement
  refine ⟨_, nested_scriptPieces o hcloses.reachesEnd_eq_false hstrings (f.opened o), ?_⟩
  simp [htext, hhead, hlabel', hmarks]

theorem ScriptFunction.nested_render {f : ScriptFunction} (h : ∀ s ∈ f.strings, bracketFree s)
    (hcloses : ClosesOnce f.script) (o : RenderOptions) : Nested (bracketsOf (f.render o)) := by
  obtain ⟨body, hbody, htext⟩ := render_braces h hcloses o
  rw [htext]
  exact (nested_signature h).append (.pair rfl hbody .nil)

theorem ClassProperty.nested_declaration {p : ClassProperty} (h : ∀ s ∈ p.strings, bracketFree s) :
    Nested (bracketsOf p.declaration) := by
  have hproperty : ∀ s ∈ p.property.strings, bracketFree s :=
    fun s hs => h s (List.mem_append_left _ hs)
  have hname := (hproperty _ p.property.name_mem_strings).nested
  have htype := p.property.nested_displayName hproperty
  have hhead :=
    nested_append (nested_append (nested_append (by decide : Nested (bracketsOf "\t")) htype)
      (by decide : Nested (bracketsOf " "))) hname
  have hend : Nested (bracketsOf ";\n") := by decide
  cases hv : p.defaultValue with
  | none => simpa [declaration, hv] using nested_append hhead hend
  | some value =>
    have hvalue :=
      value.nested_literal fun s hs => h s (List.mem_append_right _ (by simpa [hv] using hs))
    have hequals : Nested (bracketsOf " = ") := by decide
    simpa [declaration, hv]
      using nested_append (nested_append (nested_append hhead hequals) hvalue) hend

theorem ScriptClass.nested_header {c : ScriptClass} (h : ∀ s ∈ c.strings, bracketFree s) :
    Nested (bracketsOf c.header) := by
  have hname := (h c.name (by simp [strings])).nested
  have hbegin := nested_append (by decide : Nested (bracketsOf "class ")) hname
  cases hs : c.superClass with
  | none => simpa [header, hs, bracketsOf_letter] using hbegin
  | some super =>
    have hsuper : ∀ s ∈ super.strings, bracketFree s := fun s hm => h s (by simp [strings, hs, hm])
    have htype := (super.madeOf_typeName.bracketFree hsuper).nested
    have hpublic : Nested (bracketsOf " : public ") := by decide
    simpa [header, hs, bracketsOf_letter] using nested_append (nested_append hbegin hpublic) htype

theorem ScriptClass.nested_render {c : ScriptClass} (h : ∀ s ∈ c.strings, bracketFree s)
    (hcloses : ∀ f ∈ c.functions, ClosesOnce f.script) (o : RenderOptions) :
    Nested (bracketsOf (c.render o)) := by
  have hdeclarations : Nested (bracketsOf (String.join (c.properties.map (·.declaration)))) :=
    nested_join (List.forall_mem_map.mpr fun p hp => ClassProperty.nested_declaration fun s hs =>
      h s
        (by simp only [strings, List.mem_append, List.mem_flatMap]; exact .inl (.inr ⟨p, hp, hs⟩)))
  have hfunctions : Nested (bracketsOf ("\n".intercalate (c.functions.map (·.render o)))) :=
    nested_intercalate (by decide) (List.forall_mem_map.mpr fun f hf =>
      ScriptFunction.nested_render (fun s hs =>
        h s (by simp only [strings, List.mem_append, List.mem_flatMap]; exact .inr ⟨f, hf, hs⟩))
        (hcloses f hf) o)
  have hgap :
      Nested (bracketsOf (if c.properties.isEmpty || c.functions.isEmpty then "" else "\n")) := by
    split <;> decide
  have hbody :=
    nested_enclosed (o := '\x7b') (c := '\x7d') (s := "\n\x7b\npublic:\n") (u := "\x7d;\n") rfl
      (by decide) (by decide) (nested_append (nested_append hdeclarations hgap) hfunctions)
  simpa [render] using nested_append (nested_header h) hbody

/-- The brackets of a rendered dump are properly nested if none of its strings has
any and each function is closed once. Inside an expression nothing closes a
function. -/
theorem render_brackets_nested :
    (∀ (d : ScriptDump) (o : RenderOptions), (∀ s ∈ d.strings, bracketFree s) →
      (∀ f ∈ d.functions, ClosesOnce f.script) → Nested (d.render o).toList) ∧
    ∀ (e : Expr) (targets : List UInt32) (o : RenderOptions),
      (∀ x ∈ e.walk, ∀ s ∈ x.node.strings, bracketFree s) →
      Nested (renderExpression e targets .expression o).toList := by
  refine ⟨fun d o h hcloses => ?_, fun e targets o h => ?_⟩
  · rw [← nested_bracketsOf]
    cases d with
    | class_ c => exact ScriptClass.nested_render h hcloses o
    | function f => exact ScriptFunction.nested_render h (hcloses f List.mem_cons_self) o
  · have hpieces :=
      e.nested_pieces o .expression (fun hm => by cases hm) h { targets, options := o }
    rw [← nested_bracketsOf, renderExpression, Renderer.render, Renderer.foldl_put_text]
    simpa using hpieces

def doorClass : ScriptClass where
  name := "Door_C"
  kind := .blueprintGeneratedClass
  superClass := none
  properties := [⟨.unflagged "Locks" (.array (.unflagged "Lock" (.basic .int))),
    some (.array [.int 1, .int 2])⟩]
  functions := [⟨"Open", none, [], [
    ⟨0, .jumpIfNot 14 ⟨5, .var .member (.legacy "IsLocked")⟩⟩,
    ⟨14, .atom .endOfScript⟩]⟩]

theorem render_brackets_nested_doorClass :
    (∀ s ∈ (ScriptDump.class_ doorClass).strings, bracketFree s) ∧
    (∀ f ∈ (ScriptDump.class_ doorClass).functions, ClosesOnce f.script) ∧
    Nested ((ScriptDump.class_ doorClass).render ⟨true⟩).toList ∧
    Nested (renderExpression ⟨0, .ret ⟨1, .atom .endOfScript⟩⟩ [1] .expression ⟨true⟩).toList := by
  have hwalk : scriptStrings (doorClass.functions.flatMap (·.script)) = ["IsLocked"] := by
    simp [doorClass, scriptStrings, scriptWalk, Expr.walk_eq, Expr.children, Node.children,
      Node.strings, PropertyPointer.strings, PropertyPointer.legacy]
  have hstrings : ∀ s ∈ (ScriptDump.class_ doorClass).strings, bracketFree s := by
    have hsum : (ScriptDump.class_ doorClass).strings = ["Door_C", "Locks", "Lock", "Open"] ++
        scriptStrings (doorClass.functions.flatMap (·.script)) := by
      simp [doorClass, ScriptDump.strings, ScriptClass.strings, ClassProperty.strings,
        PropertyDesc.unflagged, PropertyDesc.strings, PropertyKind.strings, PropertyValue.strings,
        valuesStrings, ScriptFunction.strings]
    rw [hsum, hwalk]
    decide
  have hcloses : ∀ f ∈ (ScriptDump.class_ doorClass).functions, ClosesOnce f.script := by
    have hscript : ClosesOnce [⟨0, .jumpIfNot 14 ⟨5, .var .member (.legacy "IsLocked")⟩⟩,
        ⟨14, .atom .endOfScript⟩] :=
      ⟨by simp [Expr.reachesEnd, Node.opcode], by simp [Expr.opcode, Node.opcode, Atom.opcode]⟩
    simpa [ScriptDump.functions, doorClass] using hscript
  refine ⟨hstrings, hcloses, render_brackets_nested.1 _ ⟨true⟩ hstrings hcloses,
    render_brackets_nested.2 _ [1] ⟨true⟩ ?_⟩
  simp [Expr.walk_eq, Expr.children, Node.children, Node.strings]

end Pseudocode
