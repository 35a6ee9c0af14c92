import Pseudocode.Proofs.SpellingChanges

/-! Dumps that are spelled differently are decoded alike, as long as the tags of
property values come first. Only a value in front of its tag is read in another
way. -/

namespace Pseudocode

def Json.readsAs (v : Json) (d : ScriptDump) : Prop :=
  ∃ (t : DumpTag) (w : Json) (x : t.record.Carrier), v = .object [(t.tag, w)] ∧
    (w.reading false).as (.record t.record) .direct = some x ∧ d = t.dump x

theorem kept_add {s : Shape} {pre post : List (String × Json)} {form : Form s.Carrier}
    {key : String} (hform : s.form? .buffered (pre ++ post) = some form)
    (htag : s.tagName ≠ some key) (hkey : key ∉ form.fields.map Field.name) (w : Json)
    (m : ReadMode) :
    ((Json.object (pre ++ post)).reading false).Kept s m m
      ((Json.object (pre ++ (key, w) :: post)).reading false) := by
  refine kept_of_form form hform (fun m => (form?_insert htag m w pre post).symm) fun f hf a ha =>
    ?_
  have hname : key ≠ f.name := fun he => hkey (he ▸ List.mem_map_of_mem hf)
  rw [Json.sole_membersReading] at ha ⊢
  rw [sole_insert_ne hname]
  exact ha

theorem kept_drop {s : Shape} {pre post : List (String × Json)} {form : Form s.Carrier} {f : Field}
    {a : f.Carrier} {w : Json} {mode : ReadMode}
    (hform : s.form? .buffered (pre ++ post) = some form) (hf : f ∈ form.fields)
    (habsent : f.absent = some a) (hrange : w.inRange)
    (hw : (readField f (w.draft none) fun s => decode s mode (w.draft none)) = .ok a)
    (m : ReadMode) :
    ((Json.object (pre ++ (f.name, w) :: post)).reading false).Kept s m m
      ((Json.object (pre ++ post)).reading false) := by
  obtain ⟨hnodup, hforeign⟩ := form?_apart hform
  refine kept_of_form form ?_ (fun m => form?_insert (hforeign f hf) m w pre post) fun g hg b hb =>
    ?_
  · rw [form?_insert (hforeign f hf), hform]
  · rw [Json.sole_membersReading] at hb ⊢
    by_cases hname : f.name = g.name
    · obtain rfl : f = g := List.inj_on_of_nodup_map hnodup hf hg hname
      rw [sole_insert_self] at hb
      by_cases hmem : f.name ∈ (pre ++ post).map Prod.fst
      · rw [if_pos hmem] at hb
        cases hb
      · rw [if_neg hmem] at hb
        have hread :=
          (w.reading_kept f.shape (s.partMode m).before_buffered (fun _ => rfl)).field hb
        have hdecode : (w.reading true).field f mode = some a := by
          rw [← (agrees hrange).field, hw]
          rfl
        have hab := (w.reading_kept f.shape mode.before_buffered id).field hdecode
        rw [sole_eq_none_iff.mpr hmem]
        exact habsent.trans (hab.symm.trans hread)
    · rw [sole_insert_ne hname] at hb
      exact hb

theorem DumpTag.tag_injective {t t' : DumpTag} (h : t.tag = t'.tag) : t = t' := by
  cases t <;> cases t' <;> first | rfl | exact absurd h (by decide)

theorem InDump.readsAs {s : Shape} {context : Json → Json} (h : InDump s context) {w w' : Json}
    (hw : ∀ m, (w.reading false).Kept s m m (w'.reading false)) {d : ScriptDump}
    (hd : (context w).readsAs d) : (context w').readsAs d := by
  obtain ⟨t, h⟩ := h
  obtain ⟨t', u, x, he, hx, rfl⟩ := hd
  simp only [Json.object.injEq, List.cons.injEq, Prod.mk.injEq, and_true] at he
  obtain ⟨htag, rfl⟩ := he
  obtain rfl := DumpTag.tag_injective htag
  exact ⟨t, _, x, rfl, (h.kept hw .direct).2 x hx, rfl⟩

theorem Reordered.single {key : String} {w v' : Json} (h : Reordered (.object [(key, w)]) v') :
    ∃ w', v' = .object [(key, w')] ∧ (w = w' ∨ Reordered w w') := by
  generalize hv : Json.object [(key, w)] = v at h
  cases h with
  | item h => cases hv
  | @here ms ms' h =>
    rw [Json.object.injEq] at hv
    subst hv
    exact ⟨w, by rw [List.singleton_perm.mp h], .inl rfl⟩
  | @member key' u u' pre post h =>
    rw [Json.object.injEq] at hv
    have hlength := congrArg List.length hv
    simp only [List.length_append, List.length_cons, List.length_nil] at hlength
    obtain rfl := List.length_eq_zero_iff.mp (show pre.length = 0 by omega)
    obtain rfl := List.length_eq_zero_iff.mp (show post.length = 0 by omega)
    cases hv
    exact ⟨u', rfl, .inr h⟩

/-- One change of the spelling changes neither what a dump is read as nor whether
its numbers can be stored. -/
theorem Respelling.readsAs {v v' : Json} (h : Respelling v v') {d : ScriptDump}
    (hv : v.everyLeaf Json.isPlain ∧ v.readsAs d) : v'.everyLeaf Json.isPlain ∧ v'.readsAs d := by
  obtain ⟨hplain, hd⟩ := hv
  cases h with
  | reorder h =>
    refine ⟨h.everyLeaf hplain, ?_⟩
    obtain ⟨t, w, x, rfl, hx, rfl⟩ := hd
    obtain ⟨w', rfl, rfl | h⟩ := h.single
    · exact ⟨t, w, x, rfl, hx, rfl⟩
    · exact ⟨t, w', x, rfl, (h.kept (.record t.record) .direct).2 x hx, rfl⟩
  | @add s context pre post form key w hcontext hform htag hkey hw =>
    refine ⟨hcontext.everyLeaf (fun hms => ?_) hplain,
      hcontext.readsAs (kept_add hform htag hkey w) hd⟩
    rw [Json.everyLeaf_object, List.forall_mem_append] at hms
    rw [Json.everyLeaf_object, List.forall_mem_append, List.forall_mem_cons]
    exact ⟨hms.1, hw, hms.2⟩
  | @drop s context pre post form f w a mode hcontext hform hf habsent hw =>
    have hms := hcontext.everyLeaf_part hplain
    rw [Json.everyLeaf_object, List.forall_mem_append, List.forall_mem_cons] at hms
    have hrange := Json.inRange_of_isPlain hms.2.1
    refine ⟨hcontext.everyLeaf (fun _ => ?_) hplain,
      hcontext.readsAs (kept_drop hform hf habsent hrange hw) hd⟩
    rw [Json.everyLeaf_object, List.forall_mem_append]
    exact ⟨hms.1, hms.2.2⟩

theorem readsAs_of_respelling {v v' : Json} (h : Relation.ReflTransGen Respelling v v')
    {d : ScriptDump} (hv : v.everyLeaf Json.isPlain ∧ v.readsAs d) :
    v'.everyLeaf Json.isPlain ∧ v'.readsAs d := by
  induction h with
  | refl => exact hv
  | tail _ hstep ih => exact hstep.readsAs ih

theorem ScriptDump.ofJson_text {v : Json} (h : v.depth ≤ depthLimit) :
    ScriptDump.ofJson v.text = decodeDump (v.draft none) := by
  rw [ScriptDump.ofJson_draft, Json.draft_room h]

theorem Json.of_draft_single {v : Json} {tooDeep : Bool} {key : Quotation} {d : Draft}
    {ending : ObjectEnd} (h : v.draft none = .object tooDeep [(key, d)] ending) :
    ∃ (name : String) (w : Json), v = .object [(name, w)] ∧ key = .closed name ∧
      d = w.draft none := by
  cases v with
  | object ms =>
    rw [draft, Draft.object.injEq] at h
    obtain ⟨-, hmembers, -⟩ := h
    obtain _ | ⟨⟨name, w⟩, _ | _⟩ := ms <;> cases hmembers
    exact ⟨name, w, rfl, rfl, rfl⟩
  | list items => cases h
  | _ => exact absurd h ((draft_leaf_ne rfl).2 _ _ _)

/-- Every respelling of a dump is decoded like it. -/
theorem ScriptDump.ofJson_respelled {v v' : Json} {d : ScriptDump}
    (hplain : v.everyLeaf Json.isPlain) (hdepth : v.depth ≤ 127) (hdepth' : v'.depth ≤ 127)
    (hfirst : v.tagsFirst) (h : Relation.ReflTransGen Respelling v v')
    (hv : ScriptDump.ofJson v.text = .ok d) : ScriptDump.ofJson v'.text = .ok d := by
  rw [ScriptDump.ofJson_text hdepth] at hv
  obtain ⟨t, tooDeep, key, d, ending, x, hdraft, htag, hx, rfl⟩ := decodeDump_ok hv
  obtain ⟨name, w, rfl, rfl, rfl⟩ := Json.of_draft_single hdraft
  obtain rfl : name = t.tag := Except.ok.inj htag
  have hw : w.everyLeaf Json.isPlain := Json.everyLeaf_object.mp hplain _ List.mem_cons_self
  have hread : (w.reading true).as (.record t.record) .direct = some x := by
    rw [← agrees (Json.inRange_of_isPlain hw), hx]
    rfl
  have hd : (Json.object [(t.tag, w)]).readsAs (t.dump x) :=
    ⟨t, w, x, rfl, (hfirst.inside.kept .direct).2 x hread, rfl⟩
  obtain ⟨hplain', t', w', x', rfl, hx', hdump⟩ := readsAs_of_respelling h ⟨hplain, hd⟩
  have hw' : w'.everyLeaf Json.isPlain := Json.everyLeaf_object.mp hplain' _ List.mem_cons_self
  have hdecode : decode (.record t'.record) .direct (w'.draft none) = .ok x' := by
    rw [← toOption_eq_some, agrees (Json.inRange_of_isPlain hw')]
    exact (w'.reading_kept (.record t'.record) (.refl .direct) (fun _ => rfl)).2 x' hx'
  rw [ScriptDump.ofJson_text hdepth', Json.draft, Json.membersDraft, Json.membersDraft,
    Option.map_none, decodeDump_tag, hdecode, hdump]
  rfl

theorem Within.mem_objects {s t : Shape} {context : Json → Json} (h : Within s t context)
    (ms : List (String × Json)) : ms ∈ (context (.object ms)).objects := by
  induction h with
  | here s =>
    rw [Json.objects]
    exact List.mem_cons_self
  | @member s t context pre post form f hform hf h ih =>
    rw [Json.objects]
    have hm : (f.name, context (.object ms)) ∈ pre ++ (f.name, context (.object ms)) :: post := by
      simp
    exact List.mem_cons_of_mem _ (Json.mem_membersObjects hm ih)
  | @item s i t context pre post hi h ih =>
    rw [Json.objects]
    have hv : context (.object ms) ∈ pre ++ context (.object ms) :: post := by simp
    exact Json.mem_itemsObjects hv ih

theorem mem_dropWhile_value {value : Json} {m : String × Json} {pre rest : List (String × Json)}
    (hm : m ∈ rest) : m ∈ (pre ++ ("value", value) :: rest).dropWhile fun m => m.1 ≠ "value" := by
  induction pre with
  | nil =>
    rw [List.nil_append, List.dropWhile_cons_of_neg (by simp)]
    exact List.mem_cons_of_mem _ hm
  | cons n pre ih =>
    rw [List.cons_append]
    by_cases hn : n.1 = "value"
    · rw [List.dropWhile_cons_of_neg (by simp [hn])]
      simp [hm]
    · rw [List.dropWhile_cons_of_pos (by simp [hn])]
      exact ih

/-- All tags of a dump come first if no object at all has a member called `type`
behind one called `value`. -/
theorem Json.tagsFirst_of_objects {v : Json}
    (h : ∀ ms ∈ v.objects, "type" ∉ (ms.dropWhile fun m => m.1 ≠ "value").map Prod.fst) :
    v.tagsFirst := by
  rintro context pre mid post value tag ⟨t, hcontext⟩ rfl
  have hinside := hcontext.mem_objects (pre ++ ("value", value) :: (mid ++ ("type", tag) :: post))
  have htag : ("type", tag) ∈ (pre ++ ("value", value) :: (mid ++ ("type", tag) :: post)).dropWhile
      fun m => m.1 ≠ "value" := mem_dropWhile_value (by simp)
  refine h _ ?_ (List.mem_map_of_mem (f := Prod.fst) htag)
  rw [Json.objects]
  refine List.mem_cons_of_mem _ (Json.mem_membersObjects List.mem_cons_self ?_)
  exact hinside

theorem ScriptDump.ofJson_respelled_class :
    let tagged (ms : List (String × Json)) : Json := .object [
      ("property", .object [("name", .string "p"), ("kind", .object [("type", .string "Bool")])]),
      ("default_value", .object ms)]
    let v : Json := .object [("class", .object [("name", .string "C"), ("properties",
      .list [tagged [("type", .string "Bool"), ("value", .bool true)]]), ("functions", .list [])])]
    let v' : Json := .object [("class", .object [("name", .string "C"), ("properties",
      .list [tagged [("value", .bool true), ("type", .string "Bool")]]), ("note", .int 1)])]
    v.tagsFirst ∧ Relation.ReflTransGen Respelling v v' ∧ v'.depth ≤ 127 ∧
      ScriptDump.ofJson v'.text =
        .ok (.class_ ⟨"C", .other, none, [⟨⟨"p", ⟨0⟩, .basic .bool⟩, some (.bool true)⟩], []⟩) := by
  intro tagged v v'
  let dump (ms : List (String × Json)) : Json := .object [("class", .object ms)]
  let property (ms : List (String × Json)) : String × Json := ("properties", .list [tagged ms])
  let tagFirst : List (String × Json) := [("type", .string "Bool"), ("value", .bool true)]
  let tagLast : List (String × Json) := [("value", .bool true), ("type", .string "Bool")]
  let before : List (String × Json) := [("name", .string "C"), property tagLast]
  have hfirst : v.tagsFirst := Json.tagsFirst_of_objects (by decide)
  have hreorder : Respelling v (dump (before ++ [("functions", .list [])])) := by
    have hvalue : Reordered (.object tagFirst) (.object tagLast) := .here (.swap _ _ [])
    have htagged : Reordered (tagged tagFirst) (tagged tagLast) :=
      @Reordered.member "default_value" _ _ [("property", _)] [] hvalue
    have hproperties : Reordered (.list [tagged tagFirst]) (.list [tagged tagLast]) :=
      @Reordered.item _ _ [] [] htagged
    have hclass : Reordered
        (.object ([("name", .string "C")] ++ property tagFirst :: [("functions", .list [])]))
        (.object ([("name", .string "C")] ++ property tagLast :: [("functions", .list [])])) :=
      .member hproperties
    exact .reorder (@Reordered.member "class" _ _ [] [] hclass)
  have hinside : InDump (.record .class_) fun v => .object [("class", v)] := .mk .class_ (.here _)
  have hadd : Respelling (dump (before ++ [("functions", .list [])]))
      (dump ((before ++ [("functions", .list [])]) ++ [("note", .int 1)])) := by
    have hnote : (Json.int 1).everyLeaf Json.isPlain := by
      simp [Json.everyLeaf, Json.leaves, Json.isPlain, isWord]
    exact @Respelling.add (.record .class_) _ (before ++ [("functions", .list [])])
      [] ⟨Record.class_.fields, Record.class_.build⟩ "note" (.int 1) hinside rfl
      (by simp [Shape.tagName]) (by decide) hnote
  have hdrop : Respelling (dump (before ++ ("functions", .list []) :: [("note", .int 1)])) v' := by
    let functions : Field := .defaulted "functions" (.list (.record .function)) []
    have hempty : (readField functions ((Json.list []).draft none) fun s =>
      decode s .direct ((Json.list []).draft none)) = .ok [] := rfl
    exact @Respelling.drop (.record .class_) _ before [("note", .int 1)]
      ⟨Record.class_.fields, Record.class_.build⟩ functions (.list []) [] .direct hinside rfl
      (by simp [functions]) rfl hempty
  have hsteps : Relation.ReflTransGen Respelling v v' :=
    ((Relation.ReflTransGen.single hreorder).tail hadd).tail hdrop
  have hdepth : v.depth ≤ 127 := by decide
  have hdepth' : v'.depth ≤ 127 := by decide
  have hplain : v.everyLeaf Json.isPlain := by
    simp [v, tagged, Json.everyLeaf, Json.leaves, Json.itemsLeaves, Json.membersLeaves,
      Json.isPlain]
  have hv : ScriptDump.ofJson v.text =
      .ok (.class_ ⟨"C", .other, none, [⟨⟨"p", ⟨0⟩, .basic .bool⟩, some (.bool true)⟩], []⟩) := by
    rw [ScriptDump.ofJson_text hdepth]
    rfl
  exact ⟨hfirst, hsteps, hdepth',
    ScriptDump.ofJson_respelled hplain hdepth hdepth' hfirst hsteps hv⟩

end Pseudocode
