import Pseudocode.Proofs.Navigation

/-! Finding a label in the text of a class. Labels are unique within a function
only, and the search takes the first line that is the label, so that a label is
found in its own function unless something in front of it looks like it. -/

namespace Pseudocode

theorem wholeLines_join {ts : List String} (h : ∀ t ∈ ts, wholeLines t.toList) :
    wholeLines (String.join ts).toList :=
  join_of_append (P := fun t => wholeLines t.toList) wholeLines_nil
    (fun s t hs ht => by simpa using wholeLines_append hs ht) h

theorem wholeLines_behind (s : String) {t : String} (ht : endsLine t = true) :
    wholeLines (s ++ t).toList := by
  have hne : t ≠ "" := by
    rintro rfl
    cases ht
  exact wholeLines_of_startsLine (.inr (by rwa [endsLine_append hne]))

theorem findLabelLine_behind {s t : String} (hs : wholeLines s.toList) (ht : wholeLines t.toList)
    (rest : String) {n : UInt32} {k : Nat} (h : findLabelLine t n = some k) :
    findLabelLine (s ++ t ++ rest) n =
      some ((findLabelLine s n).getD (k + s.toList.count '\n')) := by
  have hlines : textLines (s ++ t ++ rest).toList =
      textLines s.toList ++ (textLines t.toList ++ textLines rest.toList) := by
    rw [String.toList_append, String.toList_append, List.append_assoc, textLines_append hs,
      textLines_append ht]
  simp only [findLabelLine] at h
  simp only [findLabelLine, hlines, List.findIdx?_append, h, length_textLines hs]
  cases (textLines s.toList).findIdx? fun line =>
    trimBlanks line = (labelName n ++ ":").toList <;> simp

theorem ScriptFunction.wholeLines_render (f : ScriptFunction) (o : RenderOptions) :
    wholeLines (f.render o).toList := by
  obtain ⟨label, -, htext⟩ := f.render_closed o
  rw [htext]
  exact wholeLines_behind _ (by decide)

namespace ScriptClass

/-- The text of a class in front of the function at a position. -/
def textBefore (c : ScriptClass) (o : RenderOptions) (i : Nat) : String :=
  c.header ++ "\n\x7b\npublic:\n" ++ String.join (c.properties.map (·.declaration))
    ++ (if c.properties.isEmpty || c.functions.isEmpty then "" else "\n")
    ++ String.join ((c.functions.take i).map fun f => f.render o ++ "\n")

theorem wholeLines_textBefore (c : ScriptClass) (o : RenderOptions) (i : Nat) :
    wholeLines (c.textBefore o i).toList := by
  have hheader := wholeLines_behind c.header (t := "\n\x7b\npublic:\n") (by decide)
  have hdeclarations : wholeLines (String.join (c.properties.map (·.declaration))).toList :=
    wholeLines_join (List.forall_mem_map.mpr fun p _ => wholeLines_behind _ (by decide))
  have hgap :
      wholeLines (if c.properties.isEmpty || c.functions.isEmpty then "" else "\n").toList := by
    split <;> simp [wholeLines]
  have hfunctions :
      wholeLines (String.join ((c.functions.take i).map fun f => f.render o ++ "\n")).toList :=
    wholeLines_join (List.forall_mem_map.mpr fun f _ => wholeLines_behind _ (by decide))
  rw [textBefore, String.toList_append, String.toList_append, String.toList_append]
  exact wholeLines_append
    (wholeLines_append (wholeLines_append hheader hdeclarations) hgap) hfunctions

end ScriptClass

theorem intercalate_split (separator : String) {ts : List String} {i : Nat} {t : String}
    (h : ts[i]? = some t) :
    ∃ rest, separator.intercalate ts = String.join ((ts.take i).map (· ++ separator)) ++
      t ++ rest := by
  induction ts generalizing i with
  | nil => simp at h
  | cons u ts ih =>
    cases i with
    | zero =>
      obtain rfl : u = t := by simpa using h
      cases ts with
      | nil => exact ⟨"", by simp⟩
      | cons v ts =>
        refine ⟨separator ++ separator.intercalate (v :: ts), ?_⟩
        simp [String.intercalate_cons_cons, String.append_assoc]
    | succ i =>
      have hi : ts[i]? = some t := by simpa using h
      obtain ⟨rest, hrest⟩ := ih hi
      cases ts with
      | nil => simp at hi
      | cons v ts =>
        refine ⟨rest, ?_⟩
        rw [String.intercalate_cons_cons, hrest]
        simp [String.join_cons, String.append_assoc]

/-- The text of a class is that of any of its functions with text around it. -/
theorem ScriptClass.render_split {c : ScriptClass} {i : Nat} {f : ScriptFunction}
    (hf : c.functions[i]? = some f) (o : RenderOptions) :
    ∃ rest, c.render o = c.textBefore o i ++ f.render o ++ rest := by
  have hrendered : (c.functions.map (·.render o))[i]? = some (f.render o) := by simp [hf]
  obtain ⟨rest, hrest⟩ := intercalate_split "\n" hrendered
  refine ⟨rest ++ "\x7d;\n", ?_⟩
  simp [render, textBefore, hrest, String.append_assoc, List.map_take, Function.comp_def]

/-- A label of a function is found in the text of its class on the line it has in
the function, moved by the lines in front of the function, unless one of those is
a line with the same label. -/
theorem findLabelLine_render_class {c : ScriptClass} {i : Nat} {f : ScriptFunction}
    (hf : c.functions[i]? = some f) {o : RenderOptions} {n : UInt32} {k : Nat}
    (h : findLabelLine (f.render o) n = some k) :
    (∃ rest, c.render o = c.textBefore o i ++ f.render o ++ rest) ∧
    findLabelLine (c.render o) n =
      some
        ((findLabelLine (c.textBefore o i) n).getD (k + (c.textBefore o i).toList.count '\n')) := by
  obtain ⟨rest, hrest⟩ := ScriptClass.render_split hf o
  refine ⟨⟨rest, hrest⟩, ?_⟩
  rw [hrest]
  exact findLabelLine_behind (c.wholeLines_textBefore o i) (f.wholeLines_render o) rest h

def loopAt (name : String) (n : UInt32) : ScriptFunction := ⟨name, none, [], [⟨n, .jump n⟩]⟩

def loopClass (n m : UInt32) : ScriptClass :=
  ⟨"Loops", .other, none, [], [loopAt "First" n, loopAt "Second" m]⟩

theorem loopAt_render (name : String) (n : UInt32) (o : RenderOptions) :
    (loopAt name n).render o = "\tvoid " ++ name ++ "()\n\t\x7b\n" ++ labelLine n .statement ++
      "\t\tgoto " ++ labelName n ++ ";\n\n\t\x7d\n" := by
  have htargets : jumpTargets [⟨n, .jump n⟩] = [n] := by
    simp [jumpTargets, collectTargets, jumpOffset?, insertOffset, Expr.children, Node.children]
  have hwants : ((loopAt name n).opened o).wants n = true := by
    simp [ScriptFunction.opened, loopAt, htargets, Renderer.wants]
  have hends : endsScript [⟨n, .jump n⟩] = false := rfl
  have hhead : (loopAt name n).head = "\tvoid " ++ name ++ "()\n\t\x7b\n" := by
    simp [ScriptFunction.head, ScriptFunction.signature, loopAt, String.ext_iff]
  have hpieces : scriptPieces o [⟨n, .jump n⟩] = [.enter n .statement, .text indentation,
      .text ("goto " ++ labelName n), .text terminator] := by
    simp [scriptPieces, Expr.pieces_eq, Node.layout, RenderMode.wrap, RenderMode.inStatement,
      Part.pieces]
  have hscript : (loopAt name n).script = [⟨n, .jump n⟩] := rfl
  have hmarks : indentation = "\t\t" ∧ terminator = ";\n\n" := ⟨rfl, rfl⟩
  rw [ScriptFunction.render_eq, hhead, hscript, hpieces, hends]
  simp [Renderer.log, Renderer.events, hwants, eventsText, Event.text, hmarks, String.ext_iff]

theorem loopClass_render (n m : UInt32) (o : RenderOptions) :
    (loopClass n m).textBefore o 1 =
      "class Loops\n\x7b\npublic:\n" ++ (loopAt "First" n).render o ++ "\n" ∧
    (loopClass n m).render o = (loopClass n m).textBefore o 1 ++ (loopAt "Second" m).render o ++
      "\x7d;\n" := by
  have hheader : (loopClass n m).header = "class Loops" := rfl
  have hproperties : (loopClass n m).properties = [] := rfl
  have hfunctions : (loopClass n m).functions = [loopAt "First" n, loopAt "Second" m] := rfl
  simp [ScriptClass.render, ScriptClass.textBefore, hheader, hproperties, hfunctions,
    String.ext_iff]

theorem findLabelLine_second_loop :
    (loopClass 0 5).functions[1]? = some (loopAt "Second" 5) ∧
    findLabelLine ((loopAt "Second" 5).render ⟨false⟩) 5 = some 2 ∧
    findLabelLine ((loopClass 0 5).render ⟨false⟩) 5 = some 12 := by
  have hfound : findLabelLine ((loopAt "Second" 5).render ⟨false⟩) 5 = some 2 := by
    rw [loopAt_render]
    decide +kernel
  have hclass := (findLabelLine_render_class (c := loopClass 0 5) (i := 1) rfl hfound).2
  rw [(loopClass_render 0 5 ⟨false⟩).1, loopAt_render] at hclass
  exact ⟨rfl, hfound, hclass.trans (by decide +kernel)⟩

/-- Functions may have labels of one name, and a search in their class stops at
the first. -/
theorem findLabelLine_twin_loops :
    (loopClass 0 0).functions[1]? = some (loopAt "Second" 0) ∧
    findLabelLine ((loopAt "Second" 0).render ⟨false⟩) 0 = some 2 ∧
    ((loopClass 0 0).textBefore ⟨false⟩ 1).toList.count '\n' = 10 ∧
    findLabelLine ((loopClass 0 0).render ⟨false⟩) 0 = some 5 ∧
    findLabelLine ((loopClass 0 0).render ⟨false⟩) 0 ≠ some (2 + 10) := by
  refine ⟨rfl, ?_⟩
  rw [(loopClass_render 0 0 ⟨false⟩).2, (loopClass_render 0 0 ⟨false⟩).1, loopAt_render,
    loopAt_render]
  decide +kernel

end Pseudocode
