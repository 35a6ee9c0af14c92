import Pseudocode.Proofs.Encoding
import Pseudocode.Wire.Stored

/-! A dump is read back from the text that it is stored as. Each value is written
as decoding expects it; only texts that open too many lists and objects inside
each other are refused. -/

namespace Pseudocode

theorem decodeDump_encoded (t : DumpTag) {v : Json} {x : t.record.Carrier}
    (h : Encodes (.record t.record) v x)
    (hleaves : (Json.object [(t.tag, v)]).everyLeaf Json.survives) :
    decodeDump ((Json.object [(t.tag, v)]).draft (some 127)) =
      within (Json.object [(t.tag, v)]).depth 127 (t.dump x) := by
  have hv := h (Json.everyLeaf_object.mp hleaves (t.tag, v) List.mem_cons_self)
  have hdepth : (Json.object [(t.tag, v)]).depth = v.depth + 1 := by
    simp [Json.depth, Json.membersDepth]
  rw [hdepth, Json.draft, Json.membersDraft, Json.membersDraft, decodeDump_tag]
  refine checkDepth_bind fun r hr => ?_
  rw [room_inside hr, hv.direct, within_map]

theorem decodeDump_json (d : ScriptDump) (h : d.json.everyLeaf Json.survives) :
    decodeDump (d.json.draft (some 127)) = within d.json.depth 127 d := by
  cases d with
  | class_ c => exact decodeDump_encoded .class_ c.written.encodes h
  | function f => exact decodeDump_encoded .function f.written.encodes h

/-- A dump whose numbers are read back is read back from its text, unless more
than 127 lists and objects are open at once in it: then reading it fails. -/
theorem ScriptDump.ofJson_json (d : ScriptDump) (h : d.json.everyLeaf Json.survives) :
    (d.json.depth ≤ 127 → ScriptDump.ofJson d.json.text = .ok d) ∧
      (127 < d.json.depth → ∃ e, ScriptDump.ofJson d.json.text = .error e ∧ e = .fault .tooDeep ∧
        e.category = .grammar) := by
  have hread : ScriptDump.ofJson d.json.text = within d.json.depth 127 d := by
    have hdecode := decodeDump_json d h
    rw [ScriptDump.ofJson, decodeAll, Json.document_text, depthLimit, hdecode]
    unfold within
    split <;> rfl
  rw [hread]
  exact ⟨fun hle => if_pos hle, fun hlt => ⟨.fault .tooDeep, if_neg (Nat.not_le.mpr hlt), rfl, rfl⟩⟩

theorem Json.draft_wide {x y : Binary64} {t : String} {p : NumberParts}
    (hstored : x.storedText = some t) (hread : readNumber t.toList = .ok (p, []))
    (hnumber : p.number = .real y) (room : Option Nat) :
    (Json.wide x).draft room = .number (.real y) := by
  rw [draft, hstored, Option.map_some, Option.getD_some, numeralDraft, hread, ← hnumber]

theorem draft_oneAndAHalf (room : Option Nat) :
    (Json.wide ⟨0x3ff8000000000000⟩).draft room = .number (.real ⟨0x3ff8000000000000⟩) :=
  Json.draft_wide (t := "1.5") (p := ⟨false, ['1'], ['5'], 0, true⟩) (by decide +kernel) rfl
    (by decide +kernel) room

theorem survives_oneAndAHalf : (Json.narrow ⟨0x3fc00000⟩).survives := by
  have hstored : Binary32.storedText ⟨0x3fc00000⟩ = Binary64.storedText ⟨0x3ff8000000000000⟩ := by
    decide +kernel
  have hdraft : (Json.narrow ⟨0x3fc00000⟩).draft none = .number (.real ⟨0x3ff8000000000000⟩) := by
    rw [Json.draft, hstored]
    exact draft_oneAndAHalf none
  have hnarrow : Binary64.toBinary32 ⟨0x3ff8000000000000⟩ = ⟨0x3fc00000⟩ := by decide +kernel
  refine (ofJson_leaf_iff (s := .narrow) rfl).mpr ?_
  rw [hdraft, decode, decodeNarrow, hnarrow]

theorem ScriptDump.ofJson_json_constants :
    let d : ScriptDump := .function
      ⟨"f", none, [],
        [⟨0, .float ⟨0x3fc00000⟩⟩, ⟨5, .double ⟨0x3ff8000000000000⟩⟩, ⟨14, .text none⟩]⟩
    d.json.everyLeaf Json.survives ∧ d.json.depth ≤ 127 ∧
      ScriptDump.ofJson d.json.text = .ok d := by
  have hwide : (Json.wide ⟨0x3ff8000000000000⟩).survives := by
    refine (ofJson_leaf_iff (s := .wide) rfl).mpr ?_
    rw [draft_oneAndAHalf, decode, decodeWide]
  have hnull : Json.null.survives := trivial
  have hint (i : Int) : (Json.int i).survives := trivial
  have hstring (s : String) : (Json.string s).survives := trivial
  intro d
  have hleaves : d.json.everyLeaf Json.survives := by
    simp [d, Json.everyLeaf, ScriptDump.json, ScriptFunction.json, Json.leaves, Json.membersLeaves,
      Json.itemsLeaves, exprsJson, Expr.json, Node.members, Json.orNull, survives_oneAndAHalf,
      hwide, hnull, hint, hstring]
  have hdepth : d.json.depth ≤ 127 := by decide
  exact ⟨hleaves, hdepth, (ScriptDump.ofJson_json d hleaves).1 hdepth⟩

end Pseudocode
