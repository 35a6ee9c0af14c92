import Pseudocode.Render.Piece

/-! The renderer: it writes pieces one after the other and knows which labels are
wanted, which are written and whether a line has begun. -/

namespace Pseudocode

structure Renderer where
  targets : List UInt32
  options : RenderOptions
  text : String := ""
  atLineStart : Bool := true
  /-- The offsets whose labels are written, the latest first. -/
  emitted : List UInt32 := []
  deriving Repr

def endsLine (s : String) : Bool := s.toList.getLast? = some '\n'

def labelLine (offset : UInt32) : RenderMode → String
  | .statement => indentation ++ labelName offset ++ ":\n"
  | .expression => labelName offset ++ ":\n"

namespace Renderer

def write (r : Renderer) (s : String) : Renderer :=
  if s = "" then r else { r with text := r.text ++ s, atLineStart := endsLine s }

/-- Writes the label of an offset, if it is a target and its label is not written yet. -/
def emitLabel (r : Renderer) (offset : UInt32) (mode : RenderMode) : Renderer :=
  if r.targets.contains offset && !r.emitted.contains offset then
    { r with emitted := offset :: r.emitted }.write (labelLine offset mode)
  else r

def put (r : Renderer) : Piece → Renderer
  | .text s => r.write s
  | .enter offset mode => r.emitLabel offset mode
  | .margin => if r.atLineStart then r.write indentation else r

def render (r : Renderer) (e : Expr) (mode : RenderMode) : Renderer :=
  (e.pieces r.options mode).foldl put r

def renderAll (r : Renderer) (script : List Expr) : Renderer :=
  script.foldl (fun r e => r.render e .statement) r

def step (r : Renderer) (e : Expr) (mode : RenderMode) : String × Renderer :=
  let r' := { r with text := "" }.render e mode
  (r'.text, { r' with text := r.text ++ r'.text })

end Renderer

def renderExpression (e : Expr) (targets : List UInt32) (mode : RenderMode)
    (options : RenderOptions) : String :=
  (Renderer.render { targets, options } e mode).text

def renderStatements (script : List Expr) (options : RenderOptions) : String :=
  (Renderer.renderAll { targets := jumpTargets script, options } script).text

/-- The texts that expressions add one after the other, each in its mode;
expressions without a mode are statements. -/
def renderSteps (r : Renderer) : List Expr → List RenderMode → List String
  | [], _ => []
  | e :: rest, modes =>
    let (text, r') := r.step e (modes.headD .statement)
    text :: renderSteps r' rest modes.tail

end Pseudocode
