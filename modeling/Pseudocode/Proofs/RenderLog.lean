import Pseudocode.Proofs.Walk
import Pseudocode.Render.Outline

/-! What a renderer does, step by step: the texts it writes, the nodes it enters
and the labels it puts down. The text of a run is read off its log, so that runs
over different targets can be compared entry by entry. -/

namespace Pseudocode

inductive Event where
  | write (s : String)
  | enter (offset : UInt32) (mode : RenderMode)
  | label (offset : UInt32) (mode : RenderMode)
  deriving DecidableEq, Repr

namespace Event

def text : Event → String
  | write s => s
  | enter _ _ => ""
  | label offset mode => labelLine offset mode

def isLabel : Event → Bool
  | label _ _ => true
  | _ => false

def entered? : Event → Option (UInt32 × RenderMode)
  | enter offset mode => some (offset, mode)
  | _ => none

def labelled? : Event → Option UInt32
  | label offset _ => some offset
  | _ => none

end Event

def eventsText (es : List Event) : String := String.join (es.map Event.text)

def unlabelled (es : List Event) : List Event := es.filter fun e => !e.isLabel

namespace Renderer

/-- Whether the label of an offset is still to be written. -/
def wants (r : Renderer) (offset : UInt32) : Bool :=
  r.targets.contains offset && !r.emitted.contains offset

def events (r : Renderer) : Piece → List Event
  | .text s => [.write s]
  | .enter offset mode => .enter offset mode :: if r.wants offset then [.label offset mode] else []
  | .margin => if r.atLineStart then [.write indentation] else []

def log (r : Renderer) : List Piece → List Event
  | [] => []
  | p :: ps => r.events p ++ (r.put p).log ps

end Renderer

@[simp] theorem eventsText_nil : eventsText [] = "" := rfl

theorem eventsText_append (es fs : List Event) :
    eventsText (es ++ fs) = eventsText es ++ eventsText fs := by
  simp [eventsText, String.join_append]

namespace Renderer

theorem write_text (r : Renderer) (s : String) : (r.write s).text = r.text ++ s := by
  unfold write
  split
  · next hs => simp [hs]
  · rfl

@[simp] theorem write_options (r : Renderer) (s : String) : (r.write s).options = r.options := by
  unfold write; split <;> rfl

@[simp] theorem write_targets (r : Renderer) (s : String) : (r.write s).targets = r.targets := by
  unfold write; split <;> rfl

@[simp] theorem write_emitted (r : Renderer) (s : String) : (r.write s).emitted = r.emitted := by
  unfold write; split <;> rfl

theorem emitLabel_eq (r : Renderer) (offset : UInt32) (mode : RenderMode) :
    r.emitLabel offset mode =
      if r.wants offset then { r with emitted := offset :: r.emitted }.write (labelLine offset mode)
        else r := rfl

@[simp] theorem put_options (r : Renderer) (p : Piece) : (r.put p).options = r.options := by
  cases p with
  | text s => exact write_options r s
  | enter offset mode => simp only [put, emitLabel_eq]; split <;> simp
  | margin => simp only [put]; split <;> simp

@[simp] theorem put_targets (r : Renderer) (p : Piece) : (r.put p).targets = r.targets := by
  cases p with
  | text s => exact write_targets r s
  | enter offset mode => simp only [put, emitLabel_eq]; split <;> simp
  | margin => simp only [put]; split <;> simp

theorem put_emitted (r : Renderer) (p : Piece) :
    (r.put p).emitted = ((r.events p).filterMap Event.labelled?).reverse ++ r.emitted := by
  cases p with
  | text s => simp [put, events, Event.labelled?]
  | enter offset mode =>
    simp only [put, events, emitLabel_eq]
    split <;> simp [List.filterMap_cons, Event.labelled?]
  | margin =>
    simp only [put, events]
    split <;> simp [Event.labelled?]

theorem put_text (r : Renderer) (p : Piece) :
    (r.put p).text = r.text ++ eventsText (r.events p) := by
  cases p with
  | text s => simp [put, events, eventsText, Event.text, write_text]
  | enter offset mode =>
    simp only [put, events, emitLabel_eq]
    split <;> simp [eventsText, Event.text, write_text]
  | margin =>
    simp only [put, events]
    split <;> simp [eventsText, Event.text, write_text]

theorem log_append (r : Renderer) (ps qs : List Piece) :
    r.log (ps ++ qs) = r.log ps ++ (ps.foldl put r).log qs := by
  induction ps generalizing r with
  | nil => rfl
  | cons p ps ih => simp [log, ih]

@[simp] theorem foldl_put_options (r : Renderer) (ps : List Piece) :
    (ps.foldl put r).options = r.options := by
  induction ps generalizing r with
  | nil => rfl
  | cons p ps ih => simp [ih]

@[simp] theorem foldl_put_targets (r : Renderer) (ps : List Piece) :
    (ps.foldl put r).targets = r.targets := by
  induction ps generalizing r with
  | nil => rfl
  | cons p ps ih => simp [ih]

/-- A run only adds to the text, and what it adds is in its log. -/
theorem foldl_put_text (r : Renderer) (ps : List Piece) :
    (ps.foldl put r).text = r.text ++ eventsText (r.log ps) := by
  induction ps generalizing r with
  | nil => simp [log]
  | cons p ps ih =>
    simp only [List.foldl_cons, ih, put_text, log, eventsText_append, String.append_assoc]

end Renderer

def scriptPieces (o : RenderOptions) (script : List Expr) : List Piece :=
  script.flatMap (Expr.pieces o .statement)

theorem Renderer.renderAll_eq (r : Renderer) (script : List Expr) :
    r.renderAll script = (scriptPieces r.options script).foldl put r := by
  induction script generalizing r with
  | nil => rfl
  | cons e script ih =>
    have h := ih (r.render e .statement)
    simp only [renderAll, List.foldl_cons] at h ⊢
    rw [h]
    simp [render, scriptPieces]

def ScriptFunction.head (f : ScriptFunction) : String := "\t" ++ f.signature ++ "\n\t\x7b\n"

def ScriptFunction.opened (f : ScriptFunction) (o : RenderOptions) : Renderer :=
  Renderer.write { targets := jumpTargets f.script, options := o } f.head

theorem ScriptFunction.render_eq (f : ScriptFunction) (o : RenderOptions) :
    f.render o = f.head ++ eventsText ((f.opened o).log (scriptPieces o f.script)) ++
      if endsScript f.script then "" else "\t\x7d\n" := by
  have htext : ((f.opened o).renderAll f.script).text =
      f.head ++ eventsText ((f.opened o).log (scriptPieces o f.script)) := by
    simp [Renderer.renderAll_eq, Renderer.foldl_put_text, opened, Renderer.write_text]
  rw [← htext]
  cases hends : endsScript f.script <;> simp [render, hends, Renderer.write_text, opened, head]

theorem Node.eq_of_endOfScript {ε : Type} {node : Node ε} (h : node.opcode = .endOfScript) :
    node = .atom .endOfScript := by
  unfold Node.opcode at h
  split at h <;> try cases h
  · next a => cases a <;> first | rfl | cases h
  · next kind _ => cases kind <;> cases h

theorem eventsText_endOfScript {e : Expr} (h : e.opcode = .endOfScript) (o : RenderOptions)
    (r : Renderer) :
    ∃ label, (label = "" ∨ label = labelLine e.index .statement) ∧
      eventsText (r.log (e.pieces o .statement)) = label ++ "\t\x7d\n" := by
  have hparts : e.node.layout o .statement = [.text "\t\x7d\n"] := by
    rw [Node.eq_of_endOfScript h]; rfl
  rw [e.pieces_eq, hparts]
  by_cases hw : r.wants e.index = true
  · refine ⟨_, .inr rfl, ?_⟩
    simp [Part.pieces, Renderer.log, Renderer.events, hw, eventsText, Event.text]
  · refine ⟨_, .inl rfl, ?_⟩
    simp [Part.pieces, Renderer.log, Renderer.events, hw, eventsText, Event.text]

def openStatements (script : List Expr) : List Expr :=
  if endsScript script then script.dropLast else script

theorem openStatements_subset (script : List Expr) : openStatements script ⊆ script := by
  unfold openStatements
  split
  · exact List.dropLast_subset script
  · exact List.Subset.refl script

theorem eq_concat_of_endsScript {script : List Expr} (h : endsScript script = true) :
    ∃ e, script = script.dropLast ++ [e] ∧ e.opcode = .endOfScript := by
  have hne : script ≠ [] := by
    rintro rfl
    cases h
  have hlast := List.getLast?_eq_some_getLast hne
  exact ⟨script.getLast hne,
    (List.dropLast_concat_getLast hne).symm, by simpa [endsScript, hlast] using h⟩

theorem ScriptFunction.render_closed (f : ScriptFunction) (o : RenderOptions) :
    ∃ label, (label = "" ∨ ∃ n, label = labelLine n .statement) ∧
      f.render o = f.head ++
        eventsText ((f.opened o).log (scriptPieces o (openStatements f.script))) ++ label ++
        "\t\x7d\n" := by
  cases hends : endsScript f.script with
  | false => exact ⟨"", .inl rfl, by simp [render_eq, hends, openStatements]⟩
  | true =>
    obtain ⟨e, hscript, hopcode⟩ := eq_concat_of_endsScript hends
    have hpieces :
        scriptPieces o f.script = scriptPieces o f.script.dropLast ++ e.pieces o .statement := by
      conv => lhs; rw [hscript]
      simp [scriptPieces]
    obtain ⟨label, hlabel, htext⟩ := eventsText_endOfScript hopcode o
      ((scriptPieces o f.script.dropLast).foldl Renderer.put (f.opened o))
    refine ⟨label, hlabel.imp_right fun h => ⟨e.index, h⟩, ?_⟩
    simp [render_eq, hends, openStatements, hpieces, Renderer.log_append, eventsText_append, htext,
      String.append_assoc]

/-- Whether a text is empty or ends with a line feed, so that the next character
begins a line. -/
def startsLine (s : String) : Prop := s = "" ∨ endsLine s = true

theorem endsLine_append {s t : String} (ht : t ≠ "") : endsLine (s ++ t) = endsLine t := by
  have h : t.toList ≠ [] := by simpa using ht
  simp only [endsLine, String.toList_append, List.getLast?_append, List.getLast?_eq_some_getLast h,
    Option.some_or]

namespace Renderer

/-- The flag of a renderer says whether its text is at the start of a line. -/
def Settled (r : Renderer) : Prop := r.atLineStart = true ↔ startsLine r.text

theorem settled_new (targets : List UInt32) (o : RenderOptions) :
    Settled { targets, options := o } := by
  simp [Settled, startsLine]

theorem Settled.write {r : Renderer} (h : r.Settled) (s : String) : (r.write s).Settled := by
  unfold Renderer.write
  split
  · exact h
  · next hs =>
    have hne : r.text ++ s ≠ "" := by simp [hs]
    simp [Settled, startsLine, hne, endsLine_append hs]

theorem Settled.put {r : Renderer} (h : r.Settled) (p : Piece) : (r.put p).Settled := by
  cases p with
  | text s => exact h.write s
  | enter offset mode =>
    simp only [Renderer.put, emitLabel_eq]
    split
    · exact Settled.write (r := { r with emitted := offset :: r.emitted }) h _
    · exact h
  | margin =>
    simp only [Renderer.put]
    split
    · exact h.write _
    · exact h

theorem Settled.foldl_put {r : Renderer} (h : r.Settled) (ps : List Piece) :
    (ps.foldl Renderer.put r).Settled := by
  induction ps generalizing r with
  | nil => exact h
  | cons p ps ih => exact ih (h.put p)

end Renderer

end Pseudocode
