import Pseudocode.Proofs.CutDecoding

/-! Dumps that are cut short. A text that is accepted as a dump is not accepted
without its end, and the end is all that is missed. -/

namespace Pseudocode

theorem AsField.everyLeaf {p : Json → Prop} (hnull : p .null) {f : Field} {v : Json} {a : f.Carrier}
    (h : AsField (fun _ v _ => v.everyLeaf p) f v a) : v.everyLeaf p := by
  cases h with
  | null => exact (Json.everyLeaf_leaf rfl).mpr hnull
  | plain h => exact h
  | known h => exact h

theorem Aligned.everyLeaf {p : Json → Prop} (hnull : p .null) {fs : List Field} {args : Args fs}
    {ms : List (String × Json)} (h : Aligned (fun _ v _ => v.everyLeaf p) fs args ms) :
    ∀ m ∈ ms, m.2.everyLeaf p := by
  induction h with
  | nil => simp
  | present h rest ih => exact List.forall_mem_cons.mpr ⟨h.everyLeaf hnull, ih⟩
  | absent _ _ ih => exact ih

/-- Whether a value is no whole number but one of 64 bits. -/
def Json.hasWord : Json → Prop
  | .int i => isWord i
  | _ => True

theorem Written.hasWords {s : Shape} {v : Json} {x : s.Carrier} (h : Written s v x) :
    v.everyLeaf Json.hasWord := by
  have hleaf {v : Json} (hv : v.isLeaf = true) (hword : v.hasWord) : v.everyLeaf Json.hasWord :=
    (Json.everyLeaf_leaf hv).mpr hword
  have hstring (t : String) : (Json.string t).everyLeaf Json.hasWord := hleaf rfl trivial
  refine Written.induction (P := fun _ v _ => v.everyLeaf Json.hasWord) (fun h =>
    hleaf rfl (isWord_of_ofInt? h)) (fun _ => hleaf rfl trivial) (fun _ => hleaf rfl trivial)
    (fun _ => hleaf rfl trivial) (fun _ => hstring _) (fun _ => hstring _) (fun _ =>
    hstring _) ?list ?pair ?record ?kind ?struct ?value ?expr h
  case list =>
    intro s vs xs h
    refine Json.everyLeaf_list.mpr ?_
    induction h with
    | nil => simp
    | cons hv _ ih => exact List.forall_mem_cons.mpr ⟨hv, ih⟩
  case pair =>
    intro s t v w x y hv hw
    exact Json.everyLeaf_list.mpr (List.forall_mem_cons.mpr ⟨hv, List.forall_mem_singleton.mpr hw⟩)
  case record =>
    intro r args ms h
    exact Json.everyLeaf_object.mpr (h.everyLeaf trivial)
  case kind =>
    intro t args ms h
    exact Json.everyLeaf_object.mpr (List.forall_mem_cons.mpr ⟨hstring _, h.everyLeaf trivial⟩)
  case struct =>
    intro t args ms h
    exact Json.everyLeaf_object.mpr (List.forall_mem_cons.mpr ⟨hstring _, h.everyLeaf trivial⟩)
  case value =>
    intro t v a h
    exact Json.everyLeaf_object.mpr
      (List.forall_mem_cons.mpr ⟨hstring _, List.forall_mem_singleton.mpr (h.everyLeaf trivial)⟩)
  case expr =>
    intro op args ms i h
    exact Json.everyLeaf_object.mpr (List.forall_mem_cons.mpr ⟨hleaf rfl
      (isWord_of_ofInt? (ofInt?_u32 i)), List.forall_mem_cons.mpr ⟨hstring _, h.everyLeaf trivial⟩⟩)

theorem Written.moderate {s : Shape} {v : Json} {x y : s.Carrier} (h : Written s v x)
    {room : Option Nat} (hdecode : decode s .direct (v.draft room) = .ok y) :
    v.everyLeaf Json.Moderate := by
  have hrange : v.inRange := Json.inRange_of_fault? (h.faultless room y hdecode)
  intro w hw
  cases w with
  | int i => exact h.hasWords _ hw
  | narrow x => exact hrange _ hw
  | _ => exact trivial

theorem decodeDump_atEnd (t : DumpTag) (d : Draft) :
    decodeDump (.object false [(.closed t.tag, d)] .atEnd) =
      decode (.record t.record) .direct d >>= fun _ => .error (.fault .endInObject) := by
  have hchoose : chooseName DumpTag.all DumpTag.tag t.tag = .ok t := chooseName_tag t.find_tag
  simp only [decodeDump_object, Quotation.read_closed, hchoose, checkSingle, checkDepth, bind,
    Except.bind]
  rfl

theorem decodeDump_cut {t : DumpTag} {v : Json} {x y : t.record.Carrier}
    (h : Written (.record t.record) v x)
    (hwhole : decode (.record t.record) .direct (v.draft none) = .ok y) {d : Draft}
    (hcut : (Json.object [(t.tag, v)]).Cut d) : EndsEarly (decodeDump d) := by
  have hmember {d : Draft} (hd : FailsAtEnd (decode (.record t.record) .direct d)) :
      EndsEarly (decodeDump (.object false [(.closed t.tag, d)] .atEnd)) := by
    rw [decodeDump_atEnd]
    exact hd.endsEarly_bind fun _ _ => endsEarly_fault rfl
  rcases hcut.of_object with rfl | ⟨ds, ending, rfl, hmembers⟩
  · exact endsEarly_fault (f := .endInValue) rfl
  · cases hmembers with
    | before => exact endsEarly_fault (f := .endInValue) rfl
    | key hq =>
      rw [decodeDump, checkDepth_bind_false]
      exact (Quotation.read_cut hq).bind _
    | colon => exact hmember (decode_missing _ (.inr rfl)).failsAtEnd
    | inside hd => exact hmember (h.breaksOff.decode y hwhole _ hd)
    | behind hrest =>
      cases hrest
      refine hmember ?_
      rw [hwhole]
      exact failsAtEnd_ok y

theorem ScriptDump.ofJson_cut {t : DumpTag} {v : Json} {x : t.record.Carrier}
    (h : Written (.record t.record) v x) {d : ScriptDump}
    (hread : ScriptDump.ofJson (Json.object [(t.tag, v)]).text = .ok d) {cut : List Char}
    (hcut : IsCut cut (Json.object [(t.tag, v)]).chars) :
    EndsEarly (ScriptDump.ofJson (String.ofList cut)) := by
  rw [ScriptDump.ofJson_draft, Json.draft, Json.membersDraft, Json.membersDraft,
    decodeDump_tag] at hread
  obtain ⟨_, -, hread⟩ := ok_of_bind hread
  obtain ⟨y, hv, -⟩ := ok_of_map hread
  have hdepth : v.depth ≤ depthLimit - 1 := Json.depth_le_of_fault? (h.faultless _ y hv)
  have hobject : (Json.object [(t.tag, v)]).depth ≤ depthLimit := by
    simp only [Json.depth, Json.membersDepth]
    unfold depthLimit at hdepth ⊢
    omega
  have hmoderate : (Json.object [(t.tag, v)]).everyLeaf Json.Moderate :=
    Json.everyLeaf_object.mpr (List.forall_mem_singleton.mpr (h.moderate hv))
  have hwhole : decode (.record t.record) .direct (v.draft none) = .ok y := by
    rw [← hv, Option.map_some, Json.draft_room hdepth]
  obtain ⟨d, hd, hdocument⟩ := Json.document_cut hmoderate hobject hcut
  rw [ScriptDump.ofJson, decodeAll, hdocument]
  exact (decodeDump_cut h hwhole hd).bind _

/-- Wherever the text that a dump is stored as breaks off, if it is accepted as a
whole, it is rejected for nothing but its end. -/
theorem ScriptDump.parse_cut {d d' : ScriptDump} (h : ScriptDump.parse d.json.text = .ok d')
    {before after : String} (htext : before ++ after = d.json.text) (hafter : after ≠ "") :
    ∃ e, ScriptDump.parse before = .error (.decode e) ∧ e.category = .endOfText := by
  have hread : ScriptDump.ofJson d.json.text = .ok d' := by
    rw [ScriptDump.parse] at h
    cases hread : ScriptDump.ofJson d.json.text with
    | error e =>
      rw [hread] at h
      cases h
    | ok d'' =>
      rw [hread] at h
      cases h
      rfl
  have hcut : IsCut before.toList d.json.chars := by
    refine ⟨after.toList, fun hnil => hafter (by simpa using hnil), ?_⟩
    rw [← String.toList_append, htext, Json.text, String.toList_ofList]
  have hends : EndsEarly (ScriptDump.ofJson (String.ofList before.toList)) := by
    cases d with
    | class_ c => exact ScriptDump.ofJson_cut (t := .class_) c.written hread hcut
    | function f => exact ScriptDump.ofJson_cut (t := .function) f.written hread hcut
  obtain ⟨e, he, hcategory⟩ := hends
  rw [String.ofList_toList] at he
  refine ⟨e, ?_, hcategory⟩
  rw [ScriptDump.parse, he]
  rfl

def negativeFunction : ScriptDump := .function ⟨"f", none, [], [⟨0, .int32 (-12)⟩]⟩

def negativeFunctionFront : String :=
  "\x7b\"function\":\x7b\"name\":\"f\",\"return_property\":null,\"parameters\":[]," ++
    "\"script\":[\x7b\"statement_index\":0,\"inst\":\"IntConst\",\"value\":-"

theorem ScriptDump.parse_cut_sign :
    ScriptDump.parse negativeFunction.json.text = .ok negativeFunction ∧
      negativeFunctionFront ++ "12\x7d]\x7d\x7d" = negativeFunction.json.text ∧
      ∃ e, ScriptDump.parse negativeFunctionFront = .error (.decode e) ∧
        e.category = .endOfText := by
  have hread : ScriptDump.parse negativeFunction.json.text = .ok negativeFunction := by
    rw [ScriptDump.parse, ScriptDump.ofJson_draft]
    rfl
  have htext : negativeFunctionFront ++ "12\x7d]\x7d\x7d" = negativeFunction.json.text := by
    decide +kernel
  exact ⟨hread, htext, ScriptDump.parse_cut hread htext (by decide)⟩

end Pseudocode
