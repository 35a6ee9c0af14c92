import Pseudocode.Proofs.NumberRange
import Pseudocode.Proofs.Walk
import Pseudocode.Wire.Decode
import Pseudocode.Wire.Encode

/-! How values are written. One relation says for every shape which trees its
values are written as: records and tagged values with the fields of their kind
in order, lists item by item. -/

namespace Pseudocode

def Shape.isName : Shape → Bool
  | structuralKind | conversion => true
  | _ => false

/-- Whether a tree stands for the value of a field, given which trees stand for values. -/
inductive AsField (P : (s : Shape) → Json → s.Carrier → Prop) :
    (f : Field) → Json → f.Carrier → Prop
  | null {name : String} {s : Shape} {absent : Option (Option s.Carrier)} (h : s.isName = false) :
      AsField P ⟨name, s, true, absent⟩ .null none
  | known {name : String} {s : Shape} {absent : Option (Option s.Carrier)} {v : Json}
      {x : s.Carrier} (h : P s v x) : AsField P ⟨name, s, true, absent⟩ v (some x)
  | plain {name : String} {s : Shape} {absent : Option s.Carrier} {v : Json} {x : s.Carrier}
      (h : P s v x) : AsField P ⟨name, s, false, absent⟩ v x

/-- Whether members are the values of fields, in their order. Those of some fields
may be left out. -/
inductive Aligned (P : (s : Shape) → Json → s.Carrier → Prop) :
    (fs : List Field) → Args fs → List (String × Json) → Prop
  | nil : Aligned P [] () []
  | present {f : Field} {fs : List Field} {a : f.Carrier} {args : Args fs} {v : Json}
      {ms : List (String × Json)} (h : AsField P f v a) (rest : Aligned P fs args ms) :
      Aligned P (f :: fs) (a, args) ((f.name, v) :: ms)
  | absent {f : Field} {fs : List Field} {a : f.Carrier} {args : Args fs}
      {ms : List (String × Json)} (h : f.absent = some a) (rest : Aligned P fs args ms) :
      Aligned P (f :: fs) (a, args) ms

mutual

/-- Whether a value of a shape is written as a tree. -/
inductive Written : (s : Shape) → Json → s.Carrier → Prop
  | int {w : IntWidth} {i : Int} {x : w.Carrier} (h : w.ofInt? i = some x) :
      Written (.int w) (.int i) x
  | narrow (x : Binary32) : Written .narrow (.narrow x) x
  | wide (x : Binary64) : Written .wide (.wide x) x
  | bool (x : Bool) : Written .bool (.bool x) x
  | text (x : String) : Written .text (.string x) x
  | structuralKind (x : StructuralKind) : Written .structuralKind (.string x.tag) x
  | conversion (x : Conversion) : Written .conversion (.string x.tag) x
  | list {s : Shape} {vs : List Json} {xs : List s.Carrier} (h : WrittenItems s vs xs) :
      Written (.list s) (.list vs) xs
  | pair {s t : Shape} {v w : Json} {x : s.Carrier} {y : t.Carrier} (hv : Written s v x)
      (hw : Written t w y) : Written (.pair s t) (.list [v, w]) (x, y)
  | record (r : Record) (args : Args r.fields) {ms : List (String × Json)}
      (h : Aligned Written r.fields args ms) : Written (.record r) (.object ms) (r.build args)
  | kind (t : KindTag)
      (args : Args t.fields) {ms : List (String × Json)} (h : Aligned Written t.fields args ms) :
      Written .propertyKind (.object (("type", .string t.tag) :: ms)) (t.build args)
  | struct (t : StructTag)
      (args : Args t.fields) {ms : List (String × Json)} (h : Aligned Written t.fields args ms) :
      Written .structValue (.object (("struct", .string t.tag) :: ms)) (t.build args)
  | value (t : ValueTag) {v : Json} {a : t.field.Carrier} (h : AsField Written t.field v a) :
      Written .propertyValue (.object [("type", .string t.tag), ("value", v)]) (t.build a)
  | expr (op : Opcode) (args : Args op.fields) {ms : List (String × Json)}
      (i : UInt32) (h : Aligned Written op.fields args ms) :
      Written .expr (.object (("statement_index", .int i.toNat) :: ("inst", .string op.tag) :: ms))
      ⟨i, op.build args⟩

inductive WrittenItems : (s : Shape) → List Json → List s.Carrier → Prop
  | nil (s : Shape) : WrittenItems s [] []
  | cons {s : Shape} {v : Json} {x : s.Carrier} {vs : List Json} {xs : List s.Carrier}
      (h : Written s v x) (rest : WrittenItems s vs xs) : WrittenItems s (v :: vs) (x :: xs)

end

theorem Written.induction {P : (s : Shape) → Json → s.Carrier → Prop}
    (int : ∀ {w : IntWidth} {i : Int} {x : w.Carrier}, w.ofInt? i = some x → P (.int w) (.int i) x)
    (narrow : ∀ x, P .narrow (.narrow x) x) (wide : ∀ x, P .wide (.wide x) x)
    (bool : ∀ x, P .bool (.bool x) x) (text : ∀ x, P .text (.string x) x)
    (structuralKind : ∀ x, P .structuralKind (.string x.tag) x)
    (conversion : ∀ x, P .conversion (.string x.tag) x)
    (list : ∀ {s : Shape} {vs : List Json} {xs : List s.Carrier}, List.Forall₂ (P s) vs xs →
      P (.list s) (.list vs) xs)
    (pair : ∀ {s t : Shape} {v w : Json} {x : s.Carrier} {y : t.Carrier}, P s v x → P t w y →
      P (.pair s t) (.list [v, w]) (x, y))
    (record : ∀ (r : Record) (args : Args r.fields) {ms : List (String × Json)},
      Aligned P r.fields args ms → P (.record r) (.object ms) (r.build args))
    (kind : ∀ (t : KindTag) (args : Args t.fields) {ms : List (String × Json)},
      Aligned P t.fields args ms →
        P .propertyKind (.object (("type", .string t.tag) :: ms)) (t.build args))
    (struct : ∀ (t : StructTag) (args : Args t.fields) {ms : List (String × Json)},
      Aligned P t.fields args ms →
        P .structValue (.object (("struct", .string t.tag) :: ms)) (t.build args))
    (value : ∀ (t : ValueTag) {v : Json} {a : t.field.Carrier}, AsField P t.field v a →
      P .propertyValue (.object [("type", .string t.tag), ("value", v)]) (t.build a))
    (expr : ∀ (op : Opcode) (args : Args op.fields) {ms : List (String × Json)} (i : UInt32),
      Aligned P op.fields args ms →
        P .expr (.object (("statement_index", .int i.toNat) :: ("inst", .string op.tag) :: ms))
          ⟨i, op.build args⟩)
    {s : Shape} {v : Json} {x : s.Carrier} (h : Written s v x) : P s v x :=
  @Written.rec (fun s v x _ => P s v x) (fun s vs xs _ => List.Forall₂ (P s) vs xs)
    (fun fs args ms _ => Aligned P fs args ms) (fun f v a _ => AsField P f v a)
    (fun h => int h) narrow wide bool text structuralKind conversion (fun _ => list)
    (fun _ _ => pair) (fun r args _ _ => record r args) (fun t args _ _ => kind t args)
    (fun t args _ _ => struct t args) (fun t _ _ _ => value t)
    (fun op args _ i _ => expr op args i) (fun _ => .nil) (fun _ _ => .cons) .nil
    (fun _ _ => .present) (fun h _ => .absent h) (fun h => .null h) (fun _ => .known)
    (fun _ => .plain) s v x h

theorem written_u8 (x : UInt8) : Written (.int .u8) (.int x.toNat) x := by
  have hlt := x.toNat_lt
  refine .int ?_
  simp [IntWidth.ofInt?, IntWidth.least, IntWidth.greatest]
  omega

theorem written_u16 (x : UInt16) : Written (.int .u16) (.int x.toNat) x := by
  have hlt := x.toNat_lt
  refine .int ?_
  simp [IntWidth.ofInt?, IntWidth.least, IntWidth.greatest]
  omega

theorem ofInt?_u32 (x : UInt32) : IntWidth.u32.ofInt? x.toNat = some x := by
  have hlt := x.toNat_lt
  simp [IntWidth.ofInt?, IntWidth.least, IntWidth.greatest]
  omega

theorem written_u32 (x : UInt32) : Written (.int .u32) (.int x.toNat) x := .int (ofInt?_u32 x)

theorem written_u64 (x : UInt64) : Written (.int .u64) (.int x.toNat) x := by
  have hlt := x.toNat_lt
  refine .int ?_
  simp [IntWidth.ofInt?, IntWidth.least, IntWidth.greatest]
  omega

theorem written_i32 (x : Int32) : Written (.int .i32) (.int x.toInt) x := by
  have hlow := x.le_toInt
  have hhigh := x.toInt_lt
  refine .int ?_
  simp [IntWidth.ofInt?, IntWidth.least, IntWidth.greatest]
  exact ⟨decide_eq_true (by omega), decide_eq_true (by omega)⟩

theorem written_i64 (x : Int64) : Written (.int .i64) (.int x.toInt) x := by
  have hlow := x.le_toInt
  have hhigh := x.toInt_lt
  refine .int ?_
  simp [IntWidth.ofInt?, IntWidth.least, IntWidth.greatest]
  exact ⟨decide_eq_true (by omega), decide_eq_true (by omega)⟩

theorem written_list {s : Shape} (json : s.Carrier → Json) {xs : List s.Carrier}
    (h : ∀ x ∈ xs, Written s (json x) x) : Written (.list s) (.list (xs.map json)) xs := by
  refine .list ?_
  induction xs with
  | nil => exact .nil s
  | cons x xs ih =>
    exact .cons (h x List.mem_cons_self) (ih fun y hy => h y (List.mem_cons_of_mem x hy))

theorem AsField.orNull {name : String} {s : Shape} {absent : Option (Option s.Carrier)}
    (json : s.Carrier → Json) (hname : s.isName = false) {x : Option s.Carrier}
    (h : ∀ a, x = some a → Written s (json a) a) :
    AsField Written ⟨name, s, true, absent⟩ (Json.orNull (x.map json)) x := by
  cases x with
  | none => exact .null hname
  | some a => exact .known (h a rfl)

theorem AsField.textOrNull {name : String} {absent : Option (Option String)} (x : Option String) :
    AsField Written ⟨name, .text, true, absent⟩ (Json.textOrNull x) x := by
  cases x with
  | none => exact .null rfl
  | some a => exact .known (.text a)

theorem Aligned.ifKnown {name : String} {s : Shape} (json : s.Carrier → Json) {x : Option s.Carrier}
    (h : ∀ a, x = some a → Written s (json a) a) {fs : List Field} {args : Args fs}
    {ms : List (String × Json)} (rest : Aligned Written fs args ms) :
    Aligned Written (.optional name s :: fs) (x, args)
      (Json.memberIfKnown name (x.map json) ++ ms) := by
  cases x with
  | none => exact .absent rfl rest
  | some a => exact .present (.known (h a rfl)) rest

theorem ObjectRef.written : ∀ o : ObjectRef, Written (.record .objectRef) o.json o
  | ⟨name, kind, class?, outer?⟩ => by
    have hclass : ∀ c, class? = some c → Written (.record .objectRef) c.json c :=
      fun c _ => ObjectRef.written c
    have houter : ∀ o, outer? = some o → Written (.record .objectRef) o.json o :=
      fun o _ => ObjectRef.written o
    have hjson : (ObjectRef.mk name kind class? outer?).json =
        .object (("name", .string name) :: ("kind", .string kind.tag) ::
          (Json.memberIfKnown "class" (class?.map ObjectRef.json) ++
            (Json.memberIfKnown "outer" (outer?.map ObjectRef.json) ++ []))) := by
      cases class? <;> cases outer? <;> rfl
    rw [hjson]
    exact .record .objectRef (name, kind, class?, outer?, ())
      (.present (.plain (.text name)) <| .present (.plain (.structuralKind kind)) <|
        .ifKnown (s := .record .objectRef) ObjectRef.json hclass <|
          .ifKnown (s := .record .objectRef) ObjectRef.json houter .nil)
termination_by o => sizeOf o
decreasing_by
  all_goals
    subst_vars
    simp
    omega

theorem PropertyPointer.written (p : PropertyPointer) : Written (.record .pointer) p.json p := by
  rw [PropertyPointer.json, List.append_assoc]
  exact .record .pointer (p.path?, p.legacyName?, p.isInstanceMember, ())
    (.ifKnown (s := .list .text) (fun segments => .list (segments.map .string))
        (fun segments _ => written_list (s := .text) .string fun x _ => .text x) <|
      .ifKnown (s := .text) .string (fun x _ => .text x) <| .present (.plain (.bool _)) .nil)

theorem Vector.aligned (v : Vector) :
    Aligned Written Record.vector.fields (v.x, v.y, v.z, ()) v.members :=
  .present (.plain (.wide v.x)) <| .present (.plain (.wide v.y)) <|
    .present (.plain (.wide v.z)) .nil

theorem Vector2D.aligned (v : Vector2D) :
    Aligned Written Record.vector2D.fields (v.x, v.y, ()) v.members :=
  .present (.plain (.wide v.x)) <| .present (.plain (.wide v.y)) .nil

theorem Rotator.aligned (r : Rotator) :
    Aligned Written Record.rotator.fields (r.pitch, r.yaw, r.roll, ()) r.members :=
  .present (.plain (.wide r.pitch)) <| .present (.plain (.wide r.yaw)) <|
    .present (.plain (.wide r.roll)) .nil

theorem Quat.aligned (q : Quat) :
    Aligned Written Record.quat.fields (q.x, q.y, q.z, q.w, ()) q.members :=
  .present (.plain (.wide q.x)) <| .present (.plain (.wide q.y)) <| .present (.plain (.wide q.z)) <|
    .present (.plain (.wide q.w)) .nil

theorem Vector.written (v : Vector) : Written (.record .vector) (.object v.members) v :=
  .record .vector _ v.aligned

theorem Vector2D.written (v : Vector2D) : Written (.record .vector2D) (.object v.members) v :=
  .record .vector2D _ v.aligned

theorem Rotator.written (r : Rotator) : Written (.record .rotator) (.object r.members) r :=
  .record .rotator _ r.aligned

theorem Transform.written (t : Transform) : Written (.record .transform) (.object t.members) t :=
  .record .transform (t.rotation, t.location, t.scale3D, ())
    (.present (.plain (.record .quat _ t.rotation.aligned)) <|
    .present (.plain t.location.written) <| .present (.plain t.scale3D.written) .nil)

end Pseudocode
