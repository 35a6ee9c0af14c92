import Pseudocode.Proofs.Encoding
import Pseudocode.Proofs.FiniteNumbers

/-! Values whose numbers of 64 bits have a spelling. A value is made apart from
all others of its parts, so that its numbers are those of its parts; what stands
for a missing field has no such numbers. -/

namespace Pseudocode

theorem tag_injective {τ : Type} {all : List τ} {tag : τ → String}
    (h : ∀ t, all.find? (tag · = tag t) = some t) : Function.Injective tag := by
  intro t t' htag
  have ht := h t
  simp only [htag, h t'] at ht
  exact (Option.some.inj ht).symm

theorem Record.build_injective (r : Record) : Function.Injective r.build := by
  intro a b h
  cases r <;> simp [build] at h <;> simp [Prod.ext_iff, h]

/-- A tagged value can be told by its tag in only one way. -/
structure BuildsApart {τ α : Type} {fields : τ → List Field}
    (build : (t : τ) → Args (fields t) → α) : Prop where
  tag {t t' : τ} {args : Args (fields t)} {args' : Args (fields t')}
    (h : build t args = build t' args') : t = t'
  args (t : τ) : Function.Injective (build t)

theorem KindTag.buildsApart : BuildsApart KindTag.build where
  tag {t t' args args'} h := by
    have htag (t : KindTag) (args : Args t.fields) :
        ∃ ms, (t.build args).json = .object (("type", .string t.tag) :: ms) := by
      cases t <;> exact ⟨_, rfl⟩
    obtain ⟨ms, hms⟩ := htag t args
    obtain ⟨ms', hms'⟩ := htag t' args'
    rw [h, hms'] at hms
    simp only [Json.object.injEq, List.cons.injEq, Prod.mk.injEq, Json.string.injEq,
      true_and] at hms
    exact (tag_injective find_tag hms.1).symm
  args t a b h := by cases t <;> simp [build] at h <;> simp [Prod.ext_iff, h]

theorem StructTag.buildsApart : BuildsApart StructTag.build where
  tag {t t' args args'} h := by
    have htag (t : StructTag) (args : Args t.fields) :
        ∃ ms, (t.build args).json = .object (("struct", .string t.tag) :: ms) := by
      cases t <;> exact ⟨_, rfl⟩
    obtain ⟨ms, hms⟩ := htag t args
    obtain ⟨ms', hms'⟩ := htag t' args'
    rw [h, hms'] at hms
    simp only [Json.object.injEq, List.cons.injEq, Prod.mk.injEq, Json.string.injEq,
      true_and] at hms
    exact (tag_injective find_tag hms.1).symm
  args t a b h := by cases t <;> simp [build, Record.build] at h <;> simp [Prod.ext_iff, h]

theorem ValueTag.build_injective (t : ValueTag) : Function.Injective t.build := by
  intro a b h
  cases t <;> simpa [build] using h

theorem ValueTag.eq_of_build {t t' : ValueTag} {a : t.field.Carrier} {a' : t'.field.Carrier}
    (h : t.build a = t'.build a') : t = t' := by
  cases t <;> cases t' <;> simp [build] at h <;> simp [h]

theorem Opcode.buildsApart : BuildsApart Opcode.build where
  tag {op op' args args'} h := by
    have hopcode (op : Opcode) (args : Args op.fields) : (op.build args).opcode = op := by
      cases op <;> rfl
    rw [← hopcode op args, h, hopcode]
  args op a b h := by cases op <;> simp [build] at h <;> simp [Prod.ext_iff, h]

namespace Written

variable {v : Json}

theorem of_record {r : Record} {args : Args r.fields} (h : Written (.record r) v (r.build args)) :
    ∃ ms, v = .object ms ∧ Aligned Written r.fields args ms := by
  generalize hx : r.build args = x at h
  cases h with
  | record _ args' hms => exact ⟨_, rfl, r.build_injective hx ▸ hms⟩

theorem of_kind {t : KindTag} {args : Args t.fields} (h : Written .propertyKind v (t.build args)) :
    ∃ ms, v = .object (("type", .string t.tag) :: ms) ∧ Aligned Written t.fields args ms := by
  generalize hx : t.build args = x at h
  cases h with
  | kind t' args' hms =>
    obtain rfl := KindTag.buildsApart.tag hx
    exact ⟨_, rfl, KindTag.buildsApart.args t hx ▸ hms⟩

theorem of_struct {t : StructTag} {args : Args t.fields}
    (h : Written .structValue v (t.build args)) :
    ∃ ms, v = .object (("struct", .string t.tag) :: ms) ∧ Aligned Written t.fields args ms := by
  generalize hx : t.build args = x at h
  cases h with
  | struct t' args' hms =>
    obtain rfl := StructTag.buildsApart.tag hx
    exact ⟨_, rfl, StructTag.buildsApart.args t hx ▸ hms⟩

theorem of_value {t : ValueTag} {a : t.field.Carrier} (h : Written .propertyValue v (t.build a)) :
    ∃ w, v = .object [("type", .string t.tag), ("value", w)] ∧ AsField Written t.field w a := by
  generalize hx : t.build a = x at h
  cases h with
  | value t' hw =>
    obtain rfl := ValueTag.eq_of_build hx
    exact ⟨_, rfl, t.build_injective hx ▸ hw⟩

theorem of_expr {op : Opcode} {args : Args op.fields} {i : UInt32}
    (h : Written .expr v ⟨i, op.build args⟩) :
    ∃ ms, v = .object (("statement_index", .int i.toNat) :: ("inst", .string op.tag) :: ms) ∧
      Aligned Written op.fields args ms := by
  generalize hx : (⟨i, op.build args⟩ : Expr) = x at h
  cases h with
  | expr op' args' i' hms =>
    simp only [Expr.mk.injEq] at hx
    obtain ⟨rfl, hnode⟩ := hx
    obtain rfl := Opcode.buildsApart.tag hnode
    exact ⟨_, rfl, Opcode.buildsApart.args op hnode ▸ hms⟩

end Written

def Json.hasSpelling : Json → Prop
  | .wide x => x.isFinite
  | _ => True

/-- Whether all numbers of 64 bits in a value can be written. -/
def Spelled (s : Shape) (x : s.Carrier) : Prop := ∀ v, Written s v x → v.everyLeaf Json.hasSpelling

def FieldSpelled (f : Field) (a : f.Carrier) : Prop :=
  ∀ v, AsField Written f v a → v.everyLeaf Json.hasSpelling

def ArgsSpelled : (fs : List Field) → Args fs → Prop
  | [], _ => True
  | f :: fs, (a, args) => FieldSpelled f a ∧ ArgsSpelled fs args

theorem ArgsSpelled.members {fs : List Field} {args : Args fs} {ms : List (String × Json)}
    (h : ArgsSpelled fs args) (hms : Aligned Written fs args ms) :
    ∀ m ∈ ms, m.2.everyLeaf Json.hasSpelling := by
  induction hms with
  | nil => simp
  | present hv rest ih => exact List.forall_mem_cons.mpr ⟨h.1 _ hv, ih h.2⟩
  | absent hv rest ih => exact ih h.2

theorem fieldSpelled_none {name : String} {s : Shape} {absent : Option (Option s.Carrier)} :
    FieldSpelled ⟨name, s, true, absent⟩ none := by
  intro v hv
  cases hv
  exact (Json.everyLeaf_leaf rfl).mpr trivial

theorem Spelled.known {name : String} {s : Shape} {absent : Option (Option s.Carrier)}
    {x : s.Carrier} (h : Spelled s x) : FieldSpelled ⟨name, s, true, absent⟩ (some x) := by
  intro v hv
  cases hv with
  | known hx => exact h v hx

theorem Spelled.plain {name : String} {s : Shape} {absent : Option s.Carrier} {x : s.Carrier}
    (h : Spelled s x) : FieldSpelled ⟨name, s, false, absent⟩ x := by
  intro v hv
  cases hv with
  | plain hx => exact h v hx

theorem spelled_wide {x : Binary64} (h : x.isFinite) : Spelled .wide x := by
  intro v hv
  cases hv
  exact (Json.everyLeaf_leaf rfl).mpr h

def Shape.isSimple : Shape → Bool
  | int _ | narrow | bool | text | structuralKind | conversion => true
  | _ => false

theorem spelled_simple {s : Shape} (h : s.isSimple = true) (x : s.Carrier) : Spelled s x := by
  intro v hv
  cases hv with
  | int | narrow | bool | text | structuralKind | conversion =>
    exact (Json.everyLeaf_leaf rfl).mpr trivial
  | _ => cases h

theorem WrittenItems.spelled {s : Shape} :
    ∀ {vs : List Json} {xs : List s.Carrier}, WrittenItems s vs xs → (∀ x ∈ xs, Spelled s x) →
      ∀ v ∈ vs, v.everyLeaf Json.hasSpelling
  | _, _, .nil _, _ => by simp
  | _, _, .cons hv rest, h => List.forall_mem_cons.mpr
    ⟨h _ List.mem_cons_self _ hv, rest.spelled fun x hx => h x (List.mem_cons_of_mem _ hx)⟩

theorem spelled_list {s : Shape} {xs : List s.Carrier} (h : ∀ x ∈ xs, Spelled s x) :
    Spelled (.list s) xs := by
  intro v hv
  cases hv with
  | list hvs => exact Json.everyLeaf_list.mpr (hvs.spelled h)

theorem spelled_pair {s t : Shape} {x : s.Carrier} {y : t.Carrier} (hx : Spelled s x)
    (hy : Spelled t y) : Spelled (.pair s t) (x, y) := by
  intro v hv
  cases hv with
  | pair hv hw =>
    exact Json.everyLeaf_list.mpr
      (List.forall_mem_cons.mpr ⟨hx _ hv, List.forall_mem_singleton.mpr (hy _ hw)⟩)

theorem everyLeaf_string (s : String) : (Json.string s).everyLeaf Json.hasSpelling :=
  (Json.everyLeaf_leaf rfl).mpr trivial

theorem spelled_record {r : Record} {args : Args r.fields} (h : ArgsSpelled r.fields args) :
    Spelled (.record r) (r.build args) := by
  intro v hv
  obtain ⟨ms, rfl, hms⟩ := hv.of_record
  exact Json.everyLeaf_object.mpr (h.members hms)

theorem spelled_kind {t : KindTag} {args : Args t.fields} (h : ArgsSpelled t.fields args) :
    Spelled .propertyKind (t.build args) := by
  intro v hv
  obtain ⟨ms, rfl, hms⟩ := hv.of_kind
  exact Json.everyLeaf_object.mpr (List.forall_mem_cons.mpr ⟨everyLeaf_string _, h.members hms⟩)

theorem spelled_struct {t : StructTag} {args : Args t.fields} (h : ArgsSpelled t.fields args) :
    Spelled .structValue (t.build args) := by
  intro v hv
  obtain ⟨ms, rfl, hms⟩ := hv.of_struct
  exact Json.everyLeaf_object.mpr (List.forall_mem_cons.mpr ⟨everyLeaf_string _, h.members hms⟩)

theorem spelled_value {t : ValueTag} {a : t.field.Carrier} (h : FieldSpelled t.field a) :
    Spelled .propertyValue (t.build a) := by
  intro v hv
  obtain ⟨w, rfl, hw⟩ := hv.of_value
  exact Json.everyLeaf_object.mpr
    (List.forall_mem_cons.mpr ⟨everyLeaf_string _, List.forall_mem_singleton.mpr (h w hw)⟩)

theorem spelled_expr {op : Opcode} {args : Args op.fields} (h : ArgsSpelled op.fields args)
    (i : UInt32) : Spelled .expr ⟨i, op.build args⟩ := by
  intro v hv
  obtain ⟨ms, rfl, hms⟩ := hv.of_expr
  exact Json.everyLeaf_object.mpr (List.forall_mem_cons.mpr ⟨(Json.everyLeaf_leaf rfl).mpr trivial,
    List.forall_mem_cons.mpr ⟨everyLeaf_string _, h.members hms⟩⟩)

def isEmpty : (s : Shape) → s.Carrier → Bool
  | .list _, [] => true
  | s, _ => s.isSimple

theorem spelled_isEmpty {s : Shape} {x : s.Carrier} (h : isEmpty s x = true) : Spelled s x := by
  unfold isEmpty at h
  split at h
  · exact spelled_list (by simp)
  · exact spelled_simple h x

/-- Whether what stands for a missing value is nothing or nearly so. -/
def Field.emptyDefault : Field → Bool
  | ⟨_, _, _, none⟩ => true
  | ⟨_, s, true, some x⟩ => (x : Option s.Carrier).isNone
  | ⟨_, s, false, some x⟩ => isEmpty s x

theorem fieldSpelled_default {f : Field} {a : f.Carrier} (h : f.emptyDefault = true)
    (ha : f.absent = some a) : FieldSpelled f a := by
  obtain ⟨name, s, nullable, absent⟩ := f
  cases absent with
  | none => cases ha
  | some b =>
    cases Option.some.inj ha
    cases nullable with
    | false => exact (spelled_isEmpty h).plain
    | true =>
      cases Option.isNone_iff_eq_none.mp h
      exact fieldSpelled_none

theorem emptyDefault_record (r : Record) : r.fields.all Field.emptyDefault = true := by
  cases r <;> rfl

theorem emptyDefault_kind (t : KindTag) : t.fields.all Field.emptyDefault = true := by
  cases t <;> rfl

theorem emptyDefault_struct (t : StructTag) : t.fields.all Field.emptyDefault = true := by
  cases t <;> rfl

theorem emptyDefault_value (t : ValueTag) : t.field.emptyDefault = true := by cases t <;> rfl

theorem emptyDefault_opcode (op : Opcode) : op.fields.all Field.emptyDefault = true := by
  cases op <;> rfl

end Pseudocode
