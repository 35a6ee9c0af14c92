import Pseudocode.Proofs.WrittenShapes

/-! Everything that a dump holds is written as the trees of its shape, so that
what each way of writing keeps holds of every dump. -/

namespace Pseudocode

mutual

theorem PropertyDesc.written : ∀ p : PropertyDesc, Written (.record .propertyDesc) p.json p
  | ⟨name, flags, kind⟩ =>
    .record .propertyDesc (name, flags.bits, kind, ())
      (.present (.plain (.text name)) <| .present (.plain (written_u64 flags.bits)) <|
        .present (.plain (PropertyKind.written kind)) .nil)

theorem PropertyKind.written : ∀ k : PropertyKind, Written .propertyKind k.json k
  | .basic type => .kind (.basic type) _ .nil
  | .object link name => .kind (.object link) _ (.present (.textOrNull name) .nil)
  | .class_ link name => .kind (.class_ link) _ (.present (.textOrNull name) .nil)
  | .interface name => .kind .interface _ (.present (.textOrNull name) .nil)
  | .enumeration storage name => .kind (.enumeration storage) _ (.present (.textOrNull name) .nil)
  | .struct name => .kind .struct _ (.present (.textOrNull name) .nil)
  | .fieldPath name => .kind .fieldPath _ (.present (.plain (.text name)) .nil)
  | .delegate sort name => .kind (.delegate sort) _ (.present (.textOrNull name) .nil)
  | .array inner => .kind .array _ (.present (.plain (PropertyDesc.written inner)) .nil)
  | .set element => .kind .set _ (.present (.plain (PropertyDesc.written element)) .nil)
  | .map key value =>
    .kind .map _ (.present (.plain (PropertyDesc.written key)) <|
      .present (.plain (PropertyDesc.written value)) .nil)
  | .other name => .kind .other _ (.present (.plain (.text name)) .nil)

end

theorem valuesJson_eq (items : List PropertyValue) :
    valuesJson items = items.map PropertyValue.json := by
  induction items with
  | nil => rfl
  | cons v items ih => rw [valuesJson, ih, List.map_cons]

theorem entriesJson_eq (entries : List (PropertyValue × PropertyValue)) :
    entriesJson entries = entries.map fun e => .list [e.1.json, e.2.json] := by
  induction entries with
  | nil => rfl
  | cons e entries ih => rw [entriesJson, ih, List.map_cons]

def PropertyTag.json (t : PropertyTag) : Json :=
  .object [("name", .string t.name), ("value", Json.orNull (t.value.map PropertyValue.json))]

theorem tagsJson_eq (tags : List PropertyTag) : tagsJson tags = tags.map PropertyTag.json := by
  induction tags with
  | nil => rfl
  | cons t tags ih =>
    obtain ⟨name, value⟩ := t
    cases value <;> rw [tagsJson, ih] <;> rfl

theorem PropertyTag.written_of {t : PropertyTag}
    (h : ∀ v, t.value = some v → Written .propertyValue v.json v) :
    Written (.record .propertyTag) t.json t := by
  obtain ⟨name, value⟩ := t
  exact .record .propertyTag (name, value, ()) (.present (.plain (.text name)) <|
    .present (.orNull (s := .propertyValue) PropertyValue.json rfl h) .nil)

mutual

theorem PropertyValue.written : ∀ v : PropertyValue, Written .propertyValue v.json v
  | .bool value => .value .bool (.plain (.bool value))
  | .int value => .value .int (.plain (written_i64 value))
  | .uint value => .value .uint (.plain (written_u64 value))
  | .float value => .value .float (.plain (.wide value))
  | .text sort value => .value (.text sort) (.plain (.text value))
  | .object path => .value .object (.textOrNull path)
  | .struct value => .value .struct (.plain (StructValue.written value))
  | .array items => by
    rw [PropertyValue.json, valuesJson_eq]
    exact .value .array (.plain (written_list (s := .propertyValue) _ (values_written items)))
  | .map entries => by
    rw [PropertyValue.json, entriesJson_eq]
    exact .value .map (.plain (written_list (s := .pair .propertyValue .propertyValue) (fun e =>
        .list [e.1.json, e.2.json]) fun e he =>
        .pair (entries_written entries e he).1 (entries_written entries e he).2))

theorem values_written :
    ∀ (items : List PropertyValue), ∀ v ∈ items, Written .propertyValue v.json v
  | [] => by simp
  | v :: rest => List.forall_mem_cons.mpr ⟨PropertyValue.written v, values_written rest⟩

theorem entries_written : ∀ (entries : List (PropertyValue × PropertyValue)), ∀ e ∈ entries,
    Written .propertyValue e.1.json e.1 ∧ Written .propertyValue e.2.json e.2
  | [] => by simp
  | (key, value) :: rest =>
    List.forall_mem_cons.mpr ⟨⟨PropertyValue.written key, PropertyValue.written value⟩,
      entries_written rest⟩

theorem tags_written :
    ∀ (tags : List PropertyTag), ∀ t ∈ tags, Written (.record .propertyTag) t.json t
  | [] => by simp
  | ⟨name, none⟩ :: rest =>
    List.forall_mem_cons.mpr ⟨PropertyTag.written_of (by simp), tags_written rest⟩
  | ⟨name, some value⟩ :: rest =>
    List.forall_mem_cons.mpr ⟨PropertyTag.written_of fun v hv => by
      cases hv
      exact PropertyValue.written value, tags_written rest⟩

theorem StructValue.written : ∀ s : StructValue, Written .structValue s.json s
  | .vector v => .struct .vector _ v.aligned
  | .vector2D v => .struct .vector2D _ v.aligned
  | .rotator r => .struct .rotator _ r.aligned
  | .quat q => .struct .quat _ q.aligned
  | .guid a b c d =>
    .struct .guid _ (.present (.plain (written_u32 a)) <| .present (.plain (written_u32 b)) <|
      .present (.plain (written_u32 c)) <| .present (.plain (written_u32 d)) .nil)
  | .color r g b a =>
    .struct .color _ (.present (.plain (written_u8 r)) <| .present (.plain (written_u8 g)) <|
      .present (.plain (written_u8 b)) <| .present (.plain (written_u8 a)) .nil)
  | .linearColor r g b a =>
    .struct .linearColor _ (.present (.plain (.narrow r)) <| .present (.plain (.narrow g)) <|
      .present (.plain (.narrow b)) <| .present (.plain (.narrow a)) .nil)
  | .softObjectPath path => .struct .softObjectPath _ (.present (.plain (.text path)) .nil)
  | .uniqueNetId id => .struct .uniqueNetId _ (.present (.textOrNull id) .nil)
  | .navAgentSelector bits =>
    .struct .navAgentSelector _ (.present (.plain (written_u32 bits)) .nil)
  | .box min max =>
    .struct .box _ (.present (.plain min.written) <| .present (.plain max.written) .nil)
  | .box2D min max =>
    .struct .box2D _ (.present (.plain min.written) <| .present (.plain max.written) .nil)
  | .intVector x y z =>
    .struct .intVector _ (.present (.plain (written_i32 x)) <| .present (.plain (written_i32 y)) <|
      .present (.plain (written_i32 z)) .nil)
  | .floatVector x y z =>
    .struct .floatVector _ (.present (.plain (.narrow x)) <| .present (.plain (.narrow y)) <|
      .present (.plain (.narrow z)) .nil)
  | .floatVector2D x y =>
    .struct .floatVector2D _ (.present (.plain (.narrow x)) <| .present (.plain (.narrow y)) .nil)
  | .dateTime ticks => .struct .dateTime _ (.present (.plain (written_i64 ticks)) .nil)
  | .bag properties => by
    rw [StructValue.json, tagsJson_eq]
    exact .struct .bag _ (.present
      (.plain (written_list (s := .record .propertyTag) _ (tags_written properties))) .nil)
  | .tagContainer tags =>
    .struct .tagContainer _
      (.present (.plain (written_list (s := .text) .string fun t _ => .text t)) .nil)
  | .raw text => .struct .raw _ (.present (.textOrNull text) .nil)

end

theorem exprsJson_eq (es : List Expr) : exprsJson es = es.map Expr.json := by
  induction es with
  | nil => rfl
  | cons e es ih => rw [exprsJson, ih, List.map_cons]

def SwitchCase.json (c : SwitchCase Expr) : Json :=
  .object [("case_index_value_term", c.key.json), ("next_offset", .int c.nextOffset.toNat),
    ("case_term", c.term.json)]

theorem casesJson_eq (cases : List (SwitchCase Expr)) :
    casesJson cases = cases.map SwitchCase.json := by
  induction cases with
  | nil => rfl
  | cons c cases ih => rw [casesJson, ih, List.map_cons, SwitchCase.json]

theorem exprs_written {es : List Expr} (h : ∀ e ∈ es, Written .expr e.json e) :
    Written (.list .expr) (.list (exprsJson es)) es := by
  rw [exprsJson_eq]
  exact written_list (s := .expr) Expr.json h

theorem cases_written {cases : List (SwitchCase Expr)}
    (h : ∀ c ∈ cases, Written .expr c.key.json c.key ∧ Written .expr c.term.json c.term) :
    Written (.list (.record .switchCase)) (.list (casesJson cases)) cases := by
  rw [casesJson_eq]
  refine written_list (s := .record .switchCase) SwitchCase.json fun c hc => ?_
  obtain ⟨hkey, hterm⟩ := h c hc
  exact .record .switchCase (c.key, c.nextOffset, c.term, ()) (.present (.plain hkey) <|
    .present (.plain (written_u32 c.nextOffset)) <| .present (.plain hterm) .nil)

/-- Whether the members of a node are its operands, given that its operands are
written as they are read. -/
def Node.isAligned (node : Node Expr) : Prop :=
  ∃ args : Args node.opcode.fields, Aligned Written node.opcode.fields args node.members ∧
    node.opcode.build args = node

theorem Node.aligned (node : Node Expr) (h : ∀ e ∈ node.children, Written .expr e.json e) :
    node.isAligned := by
  cases node with
  | atom a => cases a <;> exact ⟨(), .nil, rfl⟩
  | var kind p => cases kind <;> exact ⟨(p, ()), .present (.plain p.written) .nil, rfl⟩
  | propertyConst p => exact ⟨(p, ()), .present (.plain p.written) .nil, rfl⟩
  | int32 value => exact ⟨(value, ()), .present (.plain (written_i32 value)) .nil, rfl⟩
  | int64 value => exact ⟨(value, ()), .present (.plain (written_i64 value)) .nil, rfl⟩
  | uint64 value => exact ⟨(value, ()), .present (.plain (written_u64 value)) .nil, rfl⟩
  | skipOffset value => exact ⟨(value, ()), .present (.plain (written_u32 value)) .nil, rfl⟩
  | byte kind value =>
    cases kind <;> exact ⟨(value, ()), .present (.plain (written_u8 value)) .nil, rfl⟩
  | bitField inner value =>
    exact ⟨(inner, value, ()),
      .present (.plain inner.written) <| .present (.plain (written_u8 value)) .nil, rfl⟩
  | float value => exact ⟨(value, ()), .present (.plain (.narrow value)) .nil, rfl⟩
  | double value => exact ⟨(value, ()), .present (.plain (.wide value)) .nil, rfl⟩
  | literal kind value =>
    cases kind <;> exact ⟨(value, ()), .present (.plain (.text value)) .nil, rfl⟩
  | unicodeString value => exact ⟨(value, ()), .present (.plain (.text value)) .nil, rfl⟩
  | delegateName function => exact ⟨(function, ()), .present (.plain (.text function)) .nil, rfl⟩
  | text source =>
    cases source with
    | none => exact ⟨(none, ()), .present (.null rfl) .nil, rfl⟩
    | some e => exact ⟨(some e, ()), .present (.known (h e (by simp [children]))) .nil, rfl⟩
  | objectConst value => exact ⟨(value, ()), .present (.plain value.written) .nil, rfl⟩
  | vector value => exact ⟨(value, ()), .present (.plain value.written) .nil, rfl⟩
  | vector3f value => exact ⟨(value, ()), .present (.plain value.written) .nil, rfl⟩
  | rotation value => exact ⟨(value, ()), .present (.plain value.written) .nil, rfl⟩
  | transform value => exact ⟨(value, ()), .present (.plain value.written) .nil, rfl⟩
  | struct type size fields =>
    exact ⟨(type, size, fields, ()), .present (.plain type.written) <|
      .present (.plain (written_i32 size)) <| .present (.plain (exprs_written h)) .nil, rfl⟩
  | array inner elements =>
    exact ⟨(inner, elements, ()),
      .present (.plain inner.written) <| .present (.plain (exprs_written h)) .nil, rfl⟩
  | set inner elements =>
    exact ⟨(inner, elements, ()),
      .present (.plain inner.written) <| .present (.plain (exprs_written h)) .nil, rfl⟩
  | map key value elements =>
    exact ⟨(key, value, elements, ()), .present (.plain key.written) <|
      .present (.plain value.written) <| .present (.plain (exprs_written h)) .nil, rfl⟩
  | fill kind target elements =>
    obtain ⟨htarget, helements⟩ := List.forall_mem_cons.mp h
    cases kind <;> exact ⟨(target, elements, ()),
      .present (.plain htarget) <| .present (.plain (exprs_written helements)) .nil, rfl⟩
  | assign value target assignment =>
    exact ⟨(value, target, assignment, ()),
      .present (.plain value.written) <| .present (.plain (h target (by simp [children]))) <|
      .present (.plain (h assignment (by simp [children]))) .nil, rfl⟩
  | letKind kind target assignment =>
    have htarget := h target (by simp [children])
    have hassignment := h assignment (by simp [children])
    cases kind <;> exact ⟨(target, assignment, ()),
      .present (.plain htarget) <| .present (.plain hassignment) .nil, rfl⟩
  | persistentLet destination assignment =>
    exact ⟨(destination, assignment, ()), .present (.plain destination.written) <|
      .present (.plain (h assignment (by simp [children]))) .nil, rfl⟩
  | memberOf member struct =>
    exact ⟨(member, struct, ()), .present (.plain member.written) <|
      .present (.plain (h struct (by simp [children]))) .nil, rfl⟩
  | elementOf container position =>
    exact ⟨(container, position, ()), .present (.plain (h container (by simp [children]))) <|
      .present (.plain (h position (by simp [children]))) .nil, rfl⟩
  | context kind object offset result member =>
    have hobject := h object (by simp [children])
    have hmember := h member (by simp [children])
    cases kind <;> exact ⟨(object, offset, result, member, ()), .present (.plain hobject) <|
      .present (.plain (written_u32 offset)) <| .present (.orNull (s := .record .pointer)
      PropertyPointer.json rfl fun p _ => p.written) <| .present (.plain hmember) .nil, rfl⟩
  | wrapper kind operand =>
    have hoperand := h operand (by simp [children])
    cases kind <;> exact ⟨(operand, ()), .present (.plain hoperand) .nil, rfl⟩
  | classCast kind class_ operand =>
    have hoperand := h operand (by simp [children])
    cases kind <;> exact ⟨(class_, operand, ()),
      .present (.plain class_.written) <| .present (.plain hoperand) .nil, rfl⟩
  | convert conversion operand =>
    exact ⟨(conversion, operand, ()), .present (.plain (.conversion conversion)) <|
      .present (.plain (h operand (by simp [children]))) .nil, rfl⟩
  | virtualCall kind function arguments =>
    cases kind <;>
      exact ⟨(function, arguments, ()), .present (.plain (.text function)) <|
        .present (.plain (exprs_written h)) .nil, rfl⟩
  | finalCall kind function arguments =>
    cases kind <;>
      exact ⟨(function, arguments, ()), .present (.plain function.written) <|
        .present (.plain (exprs_written h)) .nil, rfl⟩
  | changeDelegate change delegate operand =>
    have hdelegate := h delegate (by simp [children])
    have hoperand := h operand (by simp [children])
    cases change <;> exact ⟨(delegate, operand, ()),
      .present (.plain hdelegate) <| .present (.plain hoperand) .nil, rfl⟩
  | clearDelegate delegate =>
    exact ⟨(delegate, ()), .present (.plain (h delegate (by simp [children]))) .nil, rfl⟩
  | callDelegate signature delegate arguments =>
    obtain ⟨hdelegate, harguments⟩ := List.forall_mem_cons.mp h
    exact ⟨(signature, delegate, arguments, ()), .present (.plain signature.written) <|
      .present (.plain hdelegate) <| .present (.plain (exprs_written harguments)) .nil, rfl⟩
  | bindDelegate function delegate object =>
    exact ⟨(function, delegate, object, ()),
      .present (.plain (.text function)) <| .present (.plain (h delegate (by simp [children]))) <|
      .present (.plain (h object (by simp [children]))) .nil, rfl⟩
  | ret operand =>
    exact ⟨(operand, ()), .present (.plain (h operand (by simp [children]))) .nil, rfl⟩
  | jump offset => exact ⟨(offset, ()), .present (.plain (written_u32 offset)) .nil, rfl⟩
  | jumpIfNot offset condition =>
    exact ⟨(offset, condition, ()), .present (.plain (written_u32 offset)) <|
      .present (.plain (h condition (by simp [children]))) .nil, rfl⟩
  | computedJump offset =>
    exact ⟨(offset, ()), .present (.plain (h offset (by simp [children]))) .nil, rfl⟩
  | pushFlow offset => exact ⟨(offset, ()), .present (.plain (written_u32 offset)) .nil, rfl⟩
  | popFlowIfNot condition =>
    exact ⟨(condition, ()), .present (.plain (h condition (by simp [children]))) .nil, rfl⟩
  | switch endOffset index default_ cases =>
    have hcases : ∀ c ∈ cases, Written .expr c.key.json c.key ∧
        Written .expr c.term.json c.term := by
      intro c hc
      have hmem : ∀ e ∈ [c.key, c.term], e ∈ (switch endOffset index default_ cases).children := by
        intro e he
        simp only [children, List.cons_append, List.mem_cons, List.mem_append, List.mem_flatMap]
        exact .inr (.inl ⟨c, hc, by simpa using he⟩)
      exact ⟨h c.key (hmem _ (by simp)), h c.term (hmem _ (by simp))⟩
    exact ⟨(endOffset, index, default_, cases, ()), .present (.plain (written_u32 endOffset)) <|
      .present (.plain (h index (by simp [children]))) <| .present (.plain
      (h default_ (by simp [children]))) <| .present (.plain (cases_written hcases)) .nil, rfl⟩
  | assert line debug condition =>
    exact ⟨(line, debug, condition, ()), .present (.plain (written_u16 line)) <| .present
      (.plain (.bool debug)) <| .present (.plain (h condition (by simp [children]))) .nil, rfl⟩
  | skip offset operand =>
    exact ⟨(offset, operand, ()), .present (.plain (written_u32 offset)) <|
      .present (.plain (h operand (by simp [children]))) .nil, rfl⟩
  | instrumentation type name =>
    exact ⟨(type, name, ()),
      .present (.plain (written_u8 type)) <| .present (.textOrNull name) .nil, rfl⟩
  | transact transaction offset =>
    exact ⟨(transaction, offset, ()), .present (.plain (written_i32 transaction)) <|
      .present (.plain (written_u32 offset)) .nil, rfl⟩
  | stopTransact transaction mode =>
    exact ⟨(transaction, mode, ()), .present (.plain (written_i32 transaction)) <|
      .present (.plain (written_u8 mode)) .nil, rfl⟩
  | abortIfNot condition =>
    exact ⟨(condition, ()), .present (.plain (h condition (by simp [children]))) .nil, rfl⟩

theorem Expr.written (e : Expr) : Written .expr e.json e := by
  induction e using Expr.induction with
  | h e ih =>
    obtain ⟨index, node⟩ := e
    obtain ⟨args, haligned, hbuild⟩ := node.aligned ih
    have hwritten := Written.expr node.opcode args index haligned
    rwa [hbuild] at hwritten

theorem ScriptFunction.written (f : ScriptFunction) : Written (.record .function) f.json f :=
  .record .function (f.name, f.returnProperty, f.parameters, f.script, ())
    (.present (.plain (.text f.name)) <| .present
    (.orNull (s := .record .propertyDesc) PropertyDesc.json rfl fun p _ => PropertyDesc.written p)
    <| .present (.plain (written_list (s := .record .propertyDesc) PropertyDesc.json fun p _ =>
    PropertyDesc.written p)) <| .present (.plain (exprs_written fun e _ => e.written)) .nil)

theorem ClassProperty.written (p : ClassProperty) : Written (.record .classProperty) p.json p :=
  .record .classProperty (p.property, p.defaultValue, ())
    (.present (.plain (PropertyDesc.written p.property)) <| .present
    (.orNull (s := .propertyValue) PropertyValue.json rfl fun v _ => PropertyValue.written v) .nil)

theorem ScriptClass.written (c : ScriptClass) : Written (.record .class_) c.json c :=
  .record .class_ (c.name, c.kind, c.superClass, c.properties, c.functions, ())
    (.present (.plain (.text c.name)) <| .present (.plain (.structuralKind c.kind)) <|
    .present (.orNull (s := .record .objectRef) ObjectRef.json rfl fun o _ => o.written) <| .present
    (.plain (written_list (s := .record .classProperty) ClassProperty.json fun p _ => p.written)) <|
    .present
    (.plain (written_list (s := .record .function) ScriptFunction.json fun f _ => f.written)) .nil)

end Pseudocode
