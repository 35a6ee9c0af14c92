import Pseudocode.Proofs.CutMembers

/-! Decoding a dump whose text breaks off. As far as the text goes it is decoded
as before, so the only thing that is found to be wrong with it is that it ends. -/

namespace Pseudocode

theorem breaksOff_string {s : Shape} {t : String} {x : s.Carrier}
    (h : ∀ q, q.content = .error .endInString → EndsEarly (decode s .direct (.string q))) :
    BreaksOff s (.string t) x := by
  refine ⟨fun _ => ⟨t, rfl⟩, fun y _ d hd => ?_⟩
  rcases hd.of_string with rfl | ⟨q, rfl, hq⟩
  · exact (decode_missing s (.inl rfl)).failsAtEnd
  · exact (h q hq).failsAtEnd

theorem breaksOff_text (x : String) : BreaksOff .text (.string x) x := by
  refine breaksOff_string fun q hq => ?_
  rw [decode, decodeText]
  exact Quotation.read_cut hq

theorem breaksOff_structuralKind (x : StructuralKind) :
    BreaksOff .structuralKind (.string x.tag) x := by
  refine breaksOff_string fun q hq => ?_
  rw [decode, decodeName]
  exact (Quotation.read_cut hq).bind _

theorem breaksOff_conversion (x : Conversion) : BreaksOff .conversion (.string x.tag) x := by
  refine breaksOff_string fun q hq => ?_
  rw [decode, decodeName]
  exact (Quotation.read_cut hq).bind _

theorem breaksOff_leaf {s : Shape} {v : Json} {x : s.Carrier} (hs : s.isName = false)
    (hleaf : v.isLeaf = true) (hv : ∀ t, v ≠ .string t)
    (h : ∀ whole part, v.draft none = .number whole → whole.Cut part →
      FailsAtEnd (decode s .direct (.number part))) : BreaksOff s v x := by
  have hname : s.isName = true → ∃ t, v = .string t := fun hname => by simp [hs] at hname
  refine ⟨hname, fun y _ d hd => ?_⟩
  cases hd with
  | nothing => exact (decode_missing s (.inl rfl)).failsAtEnd
  | unfinished hleaf hv hg => exact (Json.Cut.unfinished hleaf hv hg).failsAtEnd_gap hname
  | number hwhole hpart => exact h _ _ hwhole hpart
  | string => exact absurd rfl (hv _)
  | list => cases hleaf
  | object => cases hleaf

theorem breaksOff_bool (x : Bool) : BreaksOff .bool (.bool x) x :=
  breaksOff_leaf rfl rfl (by simp) fun _ _ hwhole _ => by cases hwhole

theorem IntWidth.ofInt?_between {w : IntWidth} {i j : Int} {x : w.Carrier} (h : w.ofInt? i = some x)
    (hlow : min 0 i ≤ j) (hhigh : j ≤ max 0 i) : ∃ y, w.ofInt? j = some y := by
  have hzero : w.least ≤ 0 ∧ 0 ≤ w.greatest := by cases w <;> decide
  have hrange := IntWidth.range_of_ofInt? h
  have hj : w.least ≤ j ∧ j ≤ w.greatest := by omega
  simp only [IntWidth.ofInt?, Bool.and_eq_true, decide_eq_true_eq, if_pos hj]
  exact ⟨_, rfl⟩

theorem decodeInt_cut {w : IntWidth} {i : Int} {x : w.Carrier} (h : w.ofInt? i = some x) {d : Draft}
    (hd : (Json.int i).Cut d) : FailsAtEnd (decodeInt w d) := by
  cases hd with
  | nothing => exact (endsEarly_mismatch (by rfl) _).failsAtEnd
  | unfinished _ _ hg =>
    exact (endsEarly_mismatch (by rcases hg with rfl | rfl <;> rfl) _).failsAtEnd
  | @number _ whole part hwhole hpart =>
    have hdraft : (Json.int i).draft none = .number (.int i) :=
      numeralDraft_int (isWord_of_ofInt? h)
    obtain rfl : .int i = whole := Draft.number.inj (hdraft.symm.trans hwhole)
    obtain ⟨j, rfl, hlow, hhigh⟩ := hpart.int i rfl
    obtain ⟨y, hy⟩ := IntWidth.ofInt?_between h hlow hhigh
    rw [decodeInt, hy]
    exact failsAtEnd_ok y

theorem breaksOff_int {w : IntWidth} {i : Int} {x : w.Carrier} (h : w.ofInt? i = some x) :
    BreaksOff (.int w) (.int i) x := by
  refine ⟨fun hname => by simp [Shape.isName] at hname, fun y _ d hd => ?_⟩
  rw [decode]
  exact decodeInt_cut h hd

theorem breaksOff_narrow (x : Binary32) : BreaksOff .narrow (.narrow x) x := by
  refine breaksOff_leaf rfl rfl (by simp) fun whole part _ hpart => ?_
  rw [decode]
  cases part with
  | outOfRange => exact absurd rfl hpart.inRange
  | int i => exact failsAtEnd_ok _
  | real y => exact failsAtEnd_ok _

theorem breaksOff_wide (x : Binary64) : BreaksOff .wide (.wide x) x := by
  refine breaksOff_leaf rfl rfl (by simp) fun whole part _ hpart => ?_
  rw [decode]
  cases part with
  | outOfRange => exact absurd rfl hpart.inRange
  | int i => exact failsAtEnd_ok _
  | real y => exact failsAtEnd_ok _

theorem breaksOff_items {s : Shape} {items : List Json} {ds : List Draft}
    (hcut : ItemsCut Json.Cut items ds) {xs ys : List s.Carrier}
    (h : List.Forall₂ (BreaksOff s) items xs)
    (hwhole : decodeItems s .direct (Json.itemsDraft none items) = .ok ys) :
    FailsAtEnd (decodeItems s .direct ds) := by
  induction hcut generalizing xs ys with
  | before =>
    rw [decodeItems]
    exact failsAtEnd_ok []
  | inside hd =>
    cases h with
    | cons hv rest =>
      rw [Json.itemsDraft, decodeItems] at hwhole
      obtain ⟨y, hy, -⟩ := ok_of_bind hwhole
      rw [decodeItems, decodeItems]
      exact (hv.decode y hy _ hd).bind fun a _ => failsAtEnd_ok [a]
  | behind hcut ih =>
    cases h with
    | cons hv rest =>
      rw [Json.itemsDraft, decodeItems] at hwhole
      obtain ⟨y, hy, hrest⟩ := ok_of_bind hwhole
      obtain ⟨ys', hys, -⟩ := ok_of_bind hrest
      rw [decodeItems, hy]
      exact (ih rest hys).bind fun as _ => failsAtEnd_ok (y :: as)

theorem breaksOff_list {s : Shape} {vs : List Json} {xs : List s.Carrier}
    (h : List.Forall₂ (BreaksOff s) vs xs) : BreaksOff (.list s) (.list vs) xs := by
  refine ⟨fun hname => by simp [Shape.isName] at hname, fun y hwhole d hd => ?_⟩
  rcases hd.of_list with rfl | ⟨ds, rfl, hcut⟩
  · exact (decode_missing _ (.inl rfl)).failsAtEnd
  · obtain ⟨-, hitems⟩ := decode_list_ok hwhole
    rw [decode, checkDepth_bind_false]
    refine (breaksOff_items hcut h hitems).bind fun as _ => ?_
    exact (endsEarly_fault (f := .endInList) rfl).failsAtEnd

theorem decodeElements_atEnd (expected : String) (index : Nat) (fs : List Field) :
    EndsEarly (decodeElements expected .direct .atEnd index fs []) := by
  cases fs with
  | nil =>
    rw [decodeElements, closeList, if_neg (by simp)]
    exact endsEarly_fault (f := .endInList) rfl
  | cons f fs =>
    rw [decodeElements]
    · exact endsEarly_fault (f := .endInList) rfl
    · simp

theorem decodeElements_cut {expected : String} {items : List Json} {ds : List Draft}
    (hcut : ItemsCut Json.Cut items ds) {fs : List Field} (h : List.Forall₂ FieldBreaksOff fs items)
    {index : Nat} {args : Args fs}
    (hwhole : decodeElements expected .direct .closed index fs (Json.itemsDraft none items) =
      .ok args) : EndsEarly (decodeElements expected .direct .atEnd index fs ds) := by
  induction hcut generalizing fs index with
  | before => exact decodeElements_atEnd expected index fs
  | inside hd =>
    cases h with
    | cons hv rest =>
      rw [Json.itemsDraft, decodeElements] at hwhole
      obtain ⟨b, hb, -⟩ := ok_of_bind hwhole
      rw [decodeElements]
      exact (hv b hb _ hd).endsEarly_bind fun _ _ =>
        (decodeElements_atEnd expected (index + 1) _).bind _
  | behind hcut ih =>
    cases h with
    | cons hv rest =>
      rw [Json.itemsDraft, decodeElements] at hwhole
      obtain ⟨b, hb, hrest⟩ := ok_of_bind hwhole
      obtain ⟨args', hargs, -⟩ := ok_of_bind hrest
      rw [decodeElements, hb]
      exact (ih rest hargs).bind _

theorem breaksOff_pair {s t : Shape} {v w : Json} {x : s.Carrier} {y : t.Carrier}
    (hv : BreaksOff s v x) (hw : BreaksOff t w y) :
    BreaksOff (.pair s t) (.list [v, w]) (x, y) := by
  refine ⟨fun hname => by simp [Shape.isName] at hname, fun z hwhole d hd => ?_⟩
  rcases hd.of_list with rfl | ⟨ds, rfl, hcut⟩
  · exact (decode_missing _ (.inl rfl)).failsAtEnd
  · rw [Json.draft, decode] at hwhole
    obtain ⟨-, hwhole⟩ := ok_of_checkDepth hwhole
    obtain ⟨args, hargs, -⟩ := ok_of_bind hwhole
    have hfields : List.Forall₂ FieldBreaksOff [.required "" s, .required "" t] [v, w] :=
      .cons hv.decode (.cons hw.decode .nil)
    rw [decode, checkDepth_bind_false]
    exact ((decodeElements_cut hcut hfields hargs).bind _).failsAtEnd

theorem breaksOff_expr (op : Opcode) (args : Args op.fields) {ms : List (String × Json)}
    (i : UInt32) (h : Aligned BreaksOff op.fields args ms) :
    BreaksOff .expr (.object (("statement_index", .int i.toNat) :: ("inst", .string op.tag) :: ms))
      ⟨i, op.build args⟩ := by
  refine breaksOff_object rfl fun y hwhole ds ending hcut => ?_
  rw [Json.draft, decode] at hwhole
  obtain ⟨index, hindex, -⟩ := ok_of_bind (ok_of_checkDepth hwhole).2
  rw [decode, checkDepth_bind_false]
  have hcolon : FailsAtEnd (decodeInt .u32 (.gap (.colon true))) :=
    (endsEarly_fault (f := .endInObject) rfl).failsAtEnd
  refine (findTag_cut hcolon ?_ hcut hindex).bind fun _ _ => (hcut.endsEarly.bind _).failsAtEnd
  refine List.forall_mem_cons.mpr ⟨fun _ d hd => ?_,
    List.forall_mem_cons.mpr ⟨fun hname => absurd hname (by simp), fun m hm hname => ?_⟩⟩
  · exact decodeInt_cut (ofInt?_u32 i) hd
  · exact absurd (h.keys_subset (List.mem_map_of_mem hm)) (hname ▸ op.apart.2)

theorem Written.breaksOff {s : Shape} {v : Json} {x : s.Carrier} (h : Written s v x) :
    BreaksOff s v x :=
  Written.induction (P := BreaksOff) breaksOff_int breaksOff_narrow breaksOff_wide breaksOff_bool
    breaksOff_text breaksOff_structuralKind breaksOff_conversion breaksOff_list breaksOff_pair
    breaksOff_record breaksOff_kind breaksOff_struct breaksOff_value breaksOff_expr h

end Pseudocode
