import Pseudocode.Proofs.ClassNavigation
import Pseudocode.Proofs.Locality
import Pseudocode.Proofs.Payload
import Pseudocode.Wire.Stored

/-! One function of a dump by itself. It is rendered to the same text as within
the dump, and that text is its statements between its signature and a closing
brace. -/

namespace Pseudocode

/-- A function is its statements, rendered as if by themselves, between its
signature and a closing brace. -/
theorem ScriptFunction.render_statements (f : ScriptFunction) (o : RenderOptions) :
    f.render o = "\t" ++ f.signature ++ "\n\t\x7b\n" ++ renderStatements f.script o ++
      if endsScript f.script then "" else "\t\x7d\n" := by
  have hends : endsLine f.head = true := by
    have hne : "\n\t\x7b\n" ≠ "" := by decide
    rw [head, endsLine_append hne]
    rfl
  have hlog : (f.opened o).log (scriptPieces o f.script) =
      Renderer.log { targets := jumpTargets f.script, options := o } (scriptPieces o f.script) := by
    have hne : f.head ≠ "" := by simp [head]
    exact Renderer.log_congr (fun n _ => by simp [opened, Renderer.wants])
      fun _ => by simp [opened, Renderer.write, hne, hends]
  rw [f.render_eq, hlog, renderStatements_eq, head]

namespace ScriptDump

theorem function?_eq (d : ScriptDump) (name : String) :
    d.function? name = d.functions.find? (·.name = name) := by
  cases d with
  | class_ c => rfl
  | function f =>
    by_cases h : f.name = name
    · simp [function?, functions, h]
    · simp [function?, functions, h]

/-- The text of each function of a dump is a block of the text of the dump, and
all of it if there is nothing else. -/
theorem render_block {d : ScriptDump} {f : ScriptFunction} (hf : f ∈ d.functions)
    (o : RenderOptions) :
    ∃ before after, d.render o = before ++ f.render o ++ after ∧ ∀ g, d = .function g →
      before = "" ∧ after = "" := by
  cases d with
  | class_ c =>
    obtain ⟨i, hi⟩ := List.mem_iff_getElem?.mp hf
    obtain ⟨rest, hrest⟩ := ScriptClass.render_split hi o
    exact ⟨c.textBefore o i, rest, hrest, fun g hg => by cases hg⟩
  | function g =>
    obtain rfl : f = g := by simpa [functions] using hf
    exact ⟨"", "", by simp [render], fun _ _ => ⟨rfl, rfl⟩⟩

theorem renderPart_eq (d : ScriptDump) (name : String) (o : RenderOptions) :
    d.renderPart (some name) o =
      ((d.functions.find? (·.name = name)).map (·.render o)).elim
        (.error (.functionNotFound name)) .ok := by
  rw [renderPart, renderFunction?, d.function?_eq]
  cases d.functions.find? (·.name = name) <;> rfl

theorem renderPart_error {d : ScriptDump} {name : String} {o : RenderOptions} {e : DumpError}
    (h : d.renderPart (some name) o = .error e) :
    (∀ f ∈ d.functions, f.name ≠ name) ∧ e = .functionNotFound name := by
  rw [d.renderPart_eq] at h
  cases hfind : d.functions.find? (·.name = name) with
  | none => exact ⟨by simpa using hfind, by simpa [hfind] using h.symm⟩
  | some f => simp [hfind] at h

theorem renderPart_missing {d : ScriptDump} {name : String} (o : RenderOptions)
    (h : ∀ f ∈ d.functions, f.name ≠ name) :
    d.renderPart (some name) o = .error (.functionNotFound name) := by
  have hfind : d.functions.find? (·.name = name) = none := by simpa using h
  simp [d.renderPart_eq, hfind]

theorem renderPart_first {d : ScriptDump} {f : ScriptFunction} {before after : List ScriptFunction}
    (o : RenderOptions) (h : d.functions = before ++ f :: after)
    (hbefore : ∀ g ∈ before, g.name ≠ f.name) :
    d.renderPart (some f.name) o = .ok (f.render o) := by
  have hfind : d.functions.find? (·.name = f.name) = some f := by
    rw [h, List.find?_eq_some_iff_append]
    exact ⟨by simp, before, after, rfl, by simpa using hbefore⟩
  simp [d.renderPart_eq, hfind]

end ScriptDump

/-- A text that holds no dump gives the same error however much of it is asked
for. Of a dump, a function is rendered by its name: the first of that name, as the
block of text that it is in the text of the dump. -/
theorem decompileFunction_block (text name : String) (o : RenderOptions) :
    (∀ e, decompile text o = .error e → decompileFunction text name o = .error e) ∧
    ∀ whole, decompile text o = .ok whole → ∃ d, ScriptDump.parse text = .ok d ∧
      whole = d.render o ∧
      ((∃ e, decompileFunction text name o = .error e) ↔ ∀ f ∈ d.functions, f.name ≠ name) ∧
      (∀ e, decompileFunction text name o = .error e → e = .functionNotFound name) ∧
      ∀ before f after, d.functions = before ++ f :: after → (∀ g ∈ before, g.name ≠ name) →
        f.name = name →
        decompileFunction text name o = .ok (f.render o) ∧
        (∃ front rest, whole = front ++ f.render o ++ rest ∧ ∀ g, d = .function g → front = "" ∧
          rest = "") ∧
        f.render o = "\t" ++ f.signature ++ "\n\t\x7b\n" ++ renderStatements f.script o ++
          if endsScript f.script then "" else "\t\x7d\n" := by
  cases hparse : ScriptDump.parse text with
  | error e =>
    have hwhole : decompile text o = .error e := by rw [decompile, hparse]; rfl
    have hpart : decompileFunction text name o = .error e := by rw [decompileFunction, hparse]; rfl
    simp [hwhole, hpart]
  | ok d =>
    have hwhole : decompile text o = .ok (d.render o) := by rw [decompile, hparse]; rfl
    have hpart : decompileFunction text name o = d.renderPart (some name) o := by
      rw [decompileFunction, hparse]; rfl
    refine ⟨fun e he => by simp [hwhole] at he, fun whole hd => ?_⟩
    obtain rfl : d.render o = whole := by simpa [hwhole] using hd
    rw [hpart]
    refine ⟨d, rfl, rfl, ⟨fun ⟨e, he⟩ => (d.renderPart_error he).1, fun h =>
      ⟨_, d.renderPart_missing o h⟩⟩, fun e he => (d.renderPart_error he).2, ?_⟩
    rintro before f after hfunctions hbefore rfl
    have hmem : f ∈ d.functions := by simp [hfunctions]
    exact ⟨d.renderPart_first o hfunctions hbefore, d.render_block hmem o, f.render_statements o⟩

end Pseudocode
