import Pseudocode.Proofs.VariablePointers

/-! Marking members of the object that runs a script is rewriting the pointers
of its variables. -/

namespace Pseudocode

variable (f : PropertyPointer → PropertyPointer)

theorem Expr.pieces_mapVariables {o o' : RenderOptions}
    (h : ∀ p, (f p).variableText o' = p.variableText o) (mode : RenderMode) (e : Expr) :
    (e.mapVariables f).pieces o' mode = e.pieces o mode := by
  induction mode, e using Expr.render_induction (o := o) with
  | h mode e ih =>
    rw [pieces_eq, pieces_eq, node_mapVariables, index_mapVariables, Node.layout_mapVariables f h,
      List.flatMap_map]
    congr 1
    exact flatMap_parts_congr (fun _ => rfl) rfl ih

theorem scriptPieces_mapVariables {o o' : RenderOptions}
    (h : ∀ p, (f p).variableText o' = p.variableText o) (script : List Expr) :
    scriptPieces o' (script.map (Expr.mapVariables f)) = scriptPieces o script := by
  simp [scriptPieces, List.flatMap_map, Expr.pieces_mapVariables f h]

theorem collectTargets_mapVariables (targets : List UInt32) (pending : List Expr) :
    collectTargets targets (pending.map (Expr.mapVariables f)) =
      collectTargets targets pending := by
  induction targets, pending using collectTargets.induct with
  | case1 targets => simp [collectTargets]
  | case2 targets e rest ih =>
    have hchildren : (e.mapVariables f).children = e.children.map (Expr.mapVariables f) := by
      rw [Expr.children, Expr.node_mapVariables, Node.children_mapVariables, Expr.children]
    rw [List.map_cons, collectTargets, collectTargets, Expr.node_mapVariables,
      jumpOffset?_mapVariables, hchildren, ← List.map_append]
    exact ih

theorem jumpTargets_mapVariables (script : List Expr) :
    jumpTargets (script.map (Expr.mapVariables f)) = jumpTargets script :=
  collectTargets_mapVariables f [] script

theorem endsScript_mapVariables (script : List Expr) :
    endsScript (script.map (Expr.mapVariables f)) = endsScript script := by
  unfold endsScript
  rw [List.getLast?_map]
  cases script.getLast? with
  | none => rfl
  | some e =>
    exact decide_eq_decide.mpr
      (by rw [Expr.opcode, Expr.node_mapVariables, Node.opcode_mapVariables]; rfl)

namespace Renderer

theorem write_withOptions (r : Renderer) (o : RenderOptions) (s : String) :
    write { r with options := o } s = { r.write s with options := o } := by
  unfold write
  split <;> rfl

theorem put_withOptions (r : Renderer) (o : RenderOptions) (p : Piece) :
    put { r with options := o } p = { r.put p with options := o } := by
  cases p with
  | text s => exact r.write_withOptions o s
  | enter offset mode =>
    simp only [put, emitLabel]
    split
    · exact write_withOptions { r with emitted := offset :: r.emitted } o _
    · rfl
  | margin =>
    simp only [put]
    split
    · exact r.write_withOptions o indentation
    · rfl

theorem log_withOptions (r : Renderer) (o : RenderOptions) (ps : List Piece) :
    log { r with options := o } ps = r.log ps := by
  induction ps generalizing r with
  | nil => rfl
  | cons p ps ih =>
    have hevents : events { r with options := o } p = r.events p := by cases p <;> rfl
    rw [log, log, hevents, put_withOptions, ih]

end Renderer

theorem ScriptFunction.render_congr {g h : ScriptFunction} {o o' : RenderOptions}
    (hsignature : g.signature = h.signature)
    (htargets : jumpTargets g.script = jumpTargets h.script)
    (hends : endsScript g.script = endsScript h.script)
    (hpieces : scriptPieces o g.script = scriptPieces o' h.script) : g.render o = h.render o' := by
  have hopened : g.opened o = { h.opened o' with options := o } := by
    rw [opened, opened, head, head, hsignature, htargets, ← Renderer.write_withOptions]
  rw [render_eq, render_eq, hopened, Renderer.log_withOptions, hpieces, hends, head,
    head, hsignature]

namespace ScriptFunction

def mapVariables (g : ScriptFunction) : ScriptFunction :=
  { g with script := g.script.map (Expr.mapVariables f) }

theorem render_mapVariables {o o' : RenderOptions}
    (h : ∀ p, (f p).variableText o' = p.variableText o) (g : ScriptFunction) :
    (g.mapVariables f).render o' = g.render o :=
  render_congr rfl (jumpTargets_mapVariables f g.script) (endsScript_mapVariables f g.script)
    (scriptPieces_mapVariables f h g.script)

end ScriptFunction

namespace ScriptClass

def mapVariables (c : ScriptClass) : ScriptClass :=
  { c with functions := c.functions.map (ScriptFunction.mapVariables f) }

theorem render_congr {c d : ScriptClass} {o o' : RenderOptions} (hheader : c.header = d.header)
    (hproperties : c.properties = d.properties)
    (hfunctions : c.functions.map (·.render o) = d.functions.map (·.render o')) :
    c.render o = d.render o' := by
  have hempty : c.functions.isEmpty = d.functions.isEmpty := by
    have h := congrArg List.isEmpty hfunctions
    rwa [List.isEmpty_map, List.isEmpty_map] at h
  rw [render, render, hheader, hproperties, hfunctions, hempty]

theorem render_mapVariables {o o' : RenderOptions}
    (h : ∀ p, (f p).variableText o' = p.variableText o) (c : ScriptClass) :
    (c.mapVariables f).render o' = c.render o := by
  refine render_congr rfl rfl ?_
  simp only [mapVariables, List.map_map]
  exact List.map_congr_left fun g _ => g.render_mapVariables f h

end ScriptClass

namespace ScriptDump

def mapVariables : ScriptDump → ScriptDump
  | class_ c => class_ (c.mapVariables f)
  | function g => function (g.mapVariables f)

theorem render_mapVariables {o o' : RenderOptions}
    (h : ∀ p, (f p).variableText o' = p.variableText o) (d : ScriptDump) :
    (d.mapVariables f).render o' = d.render o := by
  cases d with
  | class_ c => exact c.render_mapVariables f h
  | function g => exact g.render_mapVariables f h

end ScriptDump

theorem Node.layout_options {o o' : RenderOptions} {node : Node Expr}
    (h : ∀ kind p, node = .var kind p → p.variableText o = p.variableText o') (mode : RenderMode) :
    node.layout o mode = node.layout o' mode := by
  cases node
  case var kind p => rw [layout, layout, h kind p rfl]
  case text source => cases source <;> rfl
  case context kind object offset result member => cases kind <;> cases mode <;> rfl
  case convert conversion operand => cases conversion <;> rfl
  case finalCall kind function arguments => cases kind <;> rfl
  all_goals rfl

theorem Expr.pieces_options {o o' : RenderOptions} (mode : RenderMode) (e : Expr)
    (h : ∀ x ∈ e.walk, ∀ kind p, x.node = .var kind p → p.variableText o = p.variableText o') :
    e.pieces o mode = e.pieces o' mode := by
  induction mode, e using Expr.render_induction (o := o) with
  | h mode e ih =>
    have hoperands (m : RenderMode) (c : Expr) (hc : .operand m c ∈ e.node.layout o mode) :
        c.pieces o m = c.pieces o' m := ih m c hc fun x hx => h x (walk_subset_of_operand hc hx)
    rw [pieces_eq, pieces_eq, ← Node.layout_options (h e e.self_mem_walk)]
    exact congrArg _ (flatMap_parts_congr (fun _ => rfl) rfl hoperands)

/-- Whatever the options, the same nodes are entered in the same modes. -/
theorem Expr.entered_options (o o' : RenderOptions) (mode : RenderMode) (e : Expr) :
    e.entered o mode = e.entered o' mode := by
  induction mode, e using Expr.render_induction (o := o) with
  | h mode e ih =>
    rw [entered_eq, entered_eq]
    congr 1
    by_cases hvar : ∃ kind p, e.node = .var kind p
    · obtain ⟨kind, p, hnode⟩ := hvar
      simp [hnode, Node.layout, Part.entered]
    · have hlayout : e.node.layout o mode = e.node.layout o' mode :=
        Node.layout_options (fun kind p hnode => absurd ⟨kind, p, hnode⟩ hvar) mode
      rw [← hlayout]
      exact flatMap_parts_congr (fun _ => rfl) rfl ih

theorem scriptEntered_options (o o' : RenderOptions) (script : List Expr) :
    scriptEntered o script = scriptEntered o' script :=
  List.flatMap_congr fun e _ => e.entered_options o o' .statement

theorem Renderer.labels_log {r s : Renderer} (h : ∀ n, r.wants n = s.wants n) (ps : List Piece) :
    (r.log ps).filter Event.isLabel =
      (s.log ((ps.filterMap Piece.entered?).map fun x => .enter x.1 x.2)).filter Event.isLabel := by
  induction ps generalizing r s with
  | nil => rfl
  | cons p ps ih =>
    have hsilent (hp : p.entered? = none) : ∀ n, (r.put p).wants n = s.wants n := by
      intro n
      rw [← h n, Bool.eq_iff_iff, wants_put, hp]
      simp
    rw [log, List.filter_append, List.filterMap_cons]
    cases p with
    | text t => exact ih (hsilent rfl)
    | margin =>
      have hnone : (r.events .margin).filter Event.isLabel = [] := by
        simp only [events]; split <;> rfl
      rw [hnone]
      exact ih (hsilent rfl)
    | enter offset mode =>
      have hevents : r.events (.enter offset mode) = s.events (.enter offset mode) := by
        simp only [events, h offset]
      have hput :
          ∀ n, (r.put (.enter offset mode)).wants n = (s.put (.enter offset mode)).wants n := by
        intro n
        rw [Bool.eq_iff_iff, wants_put, wants_put, h n]
      rw [hevents, ih hput, ← List.filter_append]
      rfl

theorem labels_options (o o' : RenderOptions) (script : List Expr) (targets : List UInt32) :
    (scriptLog o script targets).filter Event.isLabel =
      (scriptLog o' script targets).filter Event.isLabel := by
  have hlog (o : RenderOptions) := Renderer.labels_log (r := { targets, options := o })
    (s := { targets, options := ⟨false⟩ }) (fun _ => rfl) (scriptPieces o script)
  simp only [scriptLog, hlog, entered_scriptPieces, scriptEntered_options o o']

theorem ScriptDump.render_options {o o' : RenderOptions} {d : ScriptDump}
    (h : ∀ g ∈ d.functions, ∀ x ∈ scriptWalk g.script, ∀ kind p, x.node = .var kind p →
      p.variableText o = p.variableText o') : d.render o = d.render o' := by
  have hfunction (g : ScriptFunction) (hg : g ∈ d.functions) : g.render o = g.render o' :=
    ScriptFunction.render_congr rfl rfl rfl (List.flatMap_congr fun e he =>
      e.pieces_options .statement fun x hx => h g hg x (List.mem_flatMap.mpr ⟨e, he, hx⟩))
  cases d with
  | class_ c => exact ScriptClass.render_congr rfl rfl (List.map_congr_left hfunction)
  | function g => exact hfunction g List.mem_cons_self

/-- The pointer whose bare name says that it is a member of the object that runs
the script. -/
def PropertyPointer.qualified (p : PropertyPointer) : PropertyPointer :=
  if p.isInstanceMember then .legacy ("this->" ++ p.text) else p

theorem PropertyPointer.variableText_qualified (p : PropertyPointer) :
    p.qualified.variableText ⟨false⟩ = p.variableText ⟨true⟩ := by
  by_cases h : p.isInstanceMember = true <;> simp [qualified, variableText, text, legacy, h]

def ScriptDump.qualified (d : ScriptDump) : ScriptDump := d.mapVariables PropertyPointer.qualified

/-- Qualifying members on rendering is rendering the qualified dump. Jumps, labels
and the layout of all nodes but variables are as they are without the option, and
so is the text if there is nothing to qualify. -/
theorem render_qualified (d : ScriptDump) :
    d.render ⟨true⟩ = d.qualified.render ⟨false⟩ ∧
    (∀ g ∈ d.functions, jumpTargets (g.mapVariables PropertyPointer.qualified).script =
      jumpTargets g.script ∧
      ∀ targets, (scriptLog ⟨true⟩ g.script targets).filter Event.isLabel =
        (scriptLog ⟨false⟩ g.script targets).filter Event.isLabel) ∧
    (∀ g ∈ d.functions, ∀ x ∈ scriptWalk g.script, (∀ kind p, x.node ≠ .var kind p) →
      ∀ mode, x.node.layout ⟨true⟩ mode = x.node.layout ⟨false⟩ mode) ∧
    ((∀ g ∈ d.functions, ∀ x ∈ scriptWalk g.script, ∀ kind p, x.node = .var kind p →
      p.isInstanceMember = false) →
      d.render ⟨true⟩ = d.render ⟨false⟩) := by
  refine ⟨?_, fun g _ => ⟨?_, fun targets => ?_⟩, fun g _ x _ hvar mode => ?_, fun h => ?_⟩
  · exact (d.render_mapVariables _ PropertyPointer.variableText_qualified).symm
  · exact jumpTargets_mapVariables _ g.script
  · exact labels_options ⟨true⟩ ⟨false⟩ g.script targets
  · exact Node.layout_options (fun kind p hnode => absurd hnode (hvar kind p)) mode
  · refine ScriptDump.render_options fun g hg x hx kind p hnode => ?_
    simp [PropertyPointer.variableText, h g hg x hx kind p hnode]

def openFunction (p : PropertyPointer) : ScriptFunction :=
  ⟨"Open", none, [], [⟨0, .letKind .bool ⟨1, .var .member p⟩ ⟨2, .atom .trueConst⟩⟩]⟩

theorem openFunction_render (p : PropertyPointer) (o : RenderOptions) : (openFunction p).render o =
    "\tvoid Open()\n\t\x7b\n\t\t" ++ p.variableText o ++ " = true;\n\n\t\x7d\n" := by
  have hhead : (openFunction p).head = "\tvoid Open()\n\t\x7b\n" := rfl
  have hends : endsScript (openFunction p).script = false := rfl
  have htargets : ((openFunction p).opened o).targets = [] := by
    simp [ScriptFunction.opened, openFunction, jumpTargets, collectTargets, jumpOffset?,
      Expr.children, Node.children]
  have hpieces : scriptPieces o (openFunction p).script =
      [.enter 0 .statement, .text indentation, .enter 1 .expression, .text (p.variableText o),
      .text " = ", .enter 2 .expression, .text "true", .text terminator] := by
    simp [scriptPieces, openFunction, Expr.pieces_eq, Node.layout, assignmentParts,
      RenderMode.inStatement, Part.pieces, Atom.text]
  have hmarks : indentation = "\t\t" ∧ terminator = ";\n\n" := ⟨rfl, rfl⟩
  rw [ScriptFunction.render_eq, hhead, hends, hpieces]
  simp [Renderer.log, Renderer.events, Renderer.wants, htargets, eventsText, Event.text, hmarks,
    String.ext_iff]

theorem render_qualified_openFunction :
    (openFunction (.instanceMember (.legacy "IsOpen"))).render ⟨true⟩ =
      (openFunction (.legacy "this->IsOpen")).render ⟨false⟩ ∧
    (openFunction (.legacy "this->IsOpen")).render ⟨false⟩ =
      "\tvoid Open()\n\t\x7b\n\t\tthis->IsOpen = true;\n\n\t\x7d\n" ∧
    (openFunction (.legacy "IsOpen")).render ⟨true⟩ =
      (openFunction (.legacy "IsOpen")).render ⟨false⟩ := by
  have hplain : ∀ x ∈ scriptWalk (openFunction (.legacy "IsOpen")).script, ∀ kind p,
      x.node = .var kind p → p.isInstanceMember = false := by
    simp +contextual [openFunction, scriptWalk, Expr.walk_eq, Expr.children, Node.children,
      PropertyPointer.legacy, or_imp]
  refine ⟨(render_qualified (.function (openFunction (.instanceMember (.legacy "IsOpen"))))).1, ?_,
    (render_qualified (.function (openFunction (.legacy "IsOpen")))).2.2.2 fun g hg => ?_⟩
  · rw [openFunction_render]
    rfl
  · obtain rfl := List.mem_singleton.mp hg
    exact hplain

end Pseudocode
