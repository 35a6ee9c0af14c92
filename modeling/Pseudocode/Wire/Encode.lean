import Pseudocode.Json.Value
import Pseudocode.Wire.Catalog

/-! Writing values as they are stored: records with all their fields in order,
tagged values with their tag in front. Only unknown classes, outers and names of
properties are left out. -/

namespace Pseudocode

def Json.orNull : Option Json → Json
  | some v => v
  | none => .null

def Json.textOrNull : Option String → Json
  | some s => .string s
  | none => .null

def Json.memberIfKnown (key : String) : Option Json → List (String × Json)
  | some v => [(key, v)]
  | none => []

def ObjectRef.json : ObjectRef → Json
  | ⟨name, kind, class?, outer?⟩ =>
    .object ([("name", .string name), ("kind", .string kind.tag)]
      ++ (match class? with
        | some c => [("class", c.json)]
        | none => [])
      ++ (match outer? with
        | some o => [("outer", o.json)]
        | none => []))

namespace PropertyPointer

def json (p : PropertyPointer) : Json :=
  .object (Json.memberIfKnown "new" (p.path?.map fun segments => .list (segments.map .string))
    ++ Json.memberIfKnown "old" (p.legacyName?.map .string)
    ++ [("is_instance_member", .bool p.isInstanceMember)])

end PropertyPointer

namespace Vector

def members (v : Vector) : List (String × Json) :=
  [("x", .wide v.x), ("y", .wide v.y), ("z", .wide v.z)]

end Vector

namespace Vector2D

def members (v : Vector2D) : List (String × Json) := [("x", .wide v.x), ("y", .wide v.y)]

end Vector2D

namespace Rotator

def members (r : Rotator) : List (String × Json) :=
  [("pitch", .wide r.pitch), ("yaw", .wide r.yaw), ("roll", .wide r.roll)]

end Rotator

namespace Quat

def members (q : Quat) : List (String × Json) :=
  [("x", .wide q.x), ("y", .wide q.y), ("z", .wide q.z), ("w", .wide q.w)]

end Quat

namespace Transform

def members (t : Transform) : List (String × Json) :=
  [("rotation", .object t.rotation.members), ("translation", .object t.location.members),
    ("scale_3d", .object t.scale3D.members)]

end Transform

mutual

def PropertyDesc.json : PropertyDesc → Json
  | ⟨name, flags, kind⟩ =>
    .object [("name", .string name), ("flags", .int flags.bits.toNat), ("kind", kind.json)]

def PropertyKind.json : PropertyKind → Json
  | .basic type => tagged (.basic type) []
  | .object link name => tagged (.object link) [("property_class", Json.textOrNull name)]
  | .class_ link name => tagged (.class_ link) [("meta_class", Json.textOrNull name)]
  | .interface name => tagged .interface [("interface_class", Json.textOrNull name)]
  | .enumeration storage name => tagged (.enumeration storage) [("enum_name", Json.textOrNull name)]
  | .struct name => tagged .struct [("struct_name", Json.textOrNull name)]
  | .fieldPath name => tagged .fieldPath [("property_class", .string name)]
  | .delegate sort name => tagged (.delegate sort) [("signature_function", Json.textOrNull name)]
  | .array inner => tagged .array [("inner", inner.json)]
  | .set element => tagged .set [("element", element.json)]
  | .map key value => tagged .map [("key", key.json), ("value", value.json)]
  | .other name => tagged .other [("type_name", .string name)]
where
  tagged (t : KindTag) (members : List (String × Json)) : Json :=
    .object (("type", .string t.tag) :: members)

end

mutual

def PropertyValue.json : PropertyValue → Json
  | .bool value => tagged .bool (.bool value)
  | .int value => tagged .int (.int value.toInt)
  | .uint value => tagged .uint (.int value.toNat)
  | .float value => tagged .float (.wide value)
  | .text sort value => tagged (.text sort) (.string value)
  | .object path => tagged .object (Json.textOrNull path)
  | .struct value => tagged .struct value.json
  | .array items => tagged .array (.list (valuesJson items))
  | .map entries => tagged .map (.list (entriesJson entries))
where
  tagged (t : ValueTag) (value : Json) : Json := .object [("type", .string t.tag), ("value", value)]

def valuesJson : List PropertyValue → List Json
  | [] => []
  | v :: rest => v.json :: valuesJson rest

def entriesJson : List (PropertyValue × PropertyValue) → List Json
  | [] => []
  | (key, value) :: rest => .list [key.json, value.json] :: entriesJson rest

def StructValue.json : StructValue → Json
  | .vector v => tagged .vector v.members
  | .vector2D v => tagged .vector2D v.members
  | .rotator r => tagged .rotator r.members
  | .quat q => tagged .quat q.members
  | .guid a b c d =>
    tagged .guid [("a", .int a.toNat), ("b", .int b.toNat), ("c", .int c.toNat),
      ("d", .int d.toNat)]
  | .color r g b a =>
    tagged .color [("r", .int r.toNat), ("g", .int g.toNat), ("b", .int b.toNat),
      ("a", .int a.toNat)]
  | .linearColor r g b a =>
    tagged .linearColor [("r", .narrow r), ("g", .narrow g), ("b", .narrow b), ("a", .narrow a)]
  | .softObjectPath path => tagged .softObjectPath [("asset_path_name", .string path)]
  | .uniqueNetId id => tagged .uniqueNetId [("unique_net_id", Json.textOrNull id)]
  | .navAgentSelector bits => tagged .navAgentSelector [("packed_bits", .int bits.toNat)]
  | .box min max => tagged .box [("min", .object min.members), ("max", .object max.members)]
  | .box2D min max => tagged .box2D [("min", .object min.members), ("max", .object max.members)]
  | .intVector x y z =>
    tagged .intVector [("x", .int x.toInt), ("y", .int y.toInt), ("z", .int z.toInt)]
  | .floatVector x y z => tagged .floatVector [("x", .narrow x), ("y", .narrow y), ("z", .narrow z)]
  | .floatVector2D x y => tagged .floatVector2D [("x", .narrow x), ("y", .narrow y)]
  | .dateTime ticks => tagged .dateTime [("ticks", .int ticks.toInt)]
  | .bag properties => tagged .bag [("properties", .list (tagsJson properties))]
  | .tagContainer tags => tagged .tagContainer [("tags", .list (tags.map .string))]
  | .raw text => tagged .raw [("text", Json.textOrNull text)]
where
  tagged (t : StructTag) (members : List (String × Json)) : Json :=
    .object (("struct", .string t.tag) :: members)

def tagsJson : List PropertyTag → List Json
  | [] => []
  | ⟨name, none⟩ :: rest => .object [("name", .string name), ("value", .null)] :: tagsJson rest
  | ⟨name, some value⟩ :: rest =>
    .object [("name", .string name), ("value", value.json)] :: tagsJson rest

end

mutual

def Expr.json : Expr → Json
  | ⟨index, node⟩ =>
    .object (("statement_index", .int index.toNat) :: ("inst", .string node.opcode.tag) ::
      node.members)

def Node.members : Node Expr → List (String × Json)
  | .atom _ => []
  | .var _ p => [("variable", p.json)]
  | .propertyConst p => [("property", p.json)]
  | .int32 value => [("value", .int value.toInt)]
  | .int64 value => [("value", .int value.toInt)]
  | .uint64 value => [("value", .int value.toNat)]
  | .skipOffset value => [("value", .int value.toNat)]
  | .byte _ value => [("value", .int value.toNat)]
  | .bitField inner value => [("inner_property", inner.json), ("const_value", .int value.toNat)]
  | .float value => [("value", .narrow value)]
  | .double value => [("value", .wide value)]
  | .literal _ value => [("value", .string value)]
  | .unicodeString value => [("value", .string value)]
  | .delegateName function => [("function_name", .string function)]
  | .text none => [("source_string", .null)]
  | .text (some source) => [("source_string", source.json)]
  | .objectConst value => [("value", value.json)]
  | .vector value => [("value", .object value.members)]
  | .vector3f value => [("value", .object value.members)]
  | .rotation value => [("value", .object value.members)]
  | .transform value => [("value", .object value.members)]
  | .struct type size fields =>
    [("struct_value", type.json), ("struct_size", .int size.toInt),
      ("properties", .list (exprsJson fields))]
  | .array inner elements =>
    [("inner_property", inner.json), ("elements", .list (exprsJson elements))]
  | .set inner elements =>
    [("inner_property", inner.json), ("elements", .list (exprsJson elements))]
  | .map key value elements =>
    [("key_property", key.json), ("value_property", value.json),
      ("elements", .list (exprsJson elements))]
  | .fill .array target elements =>
    [("assigning_property", target.json), ("elements", .list (exprsJson elements))]
  | .fill .set target elements =>
    [("set_property", target.json), ("elements", .list (exprsJson elements))]
  | .fill .map target elements =>
    [("map_property", target.json), ("elements", .list (exprsJson elements))]
  | .assign value target assignment =>
    [("value", value.json), ("variable", target.json), ("assignment", assignment.json)]
  | .letKind _ target assignment => [("variable", target.json), ("assignment", assignment.json)]
  | .persistentLet destination assignment =>
    [("destination_property", destination.json), ("assignment_expression", assignment.json)]
  | .memberOf member struct =>
    [("member_property", member.json), ("struct_expression", struct.json)]
  | .elementOf container position =>
    [("array_variable", container.json), ("array_index", position.json)]
  | .context _ object offset result member =>
    [("object_expression", object.json), ("offset", .int offset.toNat),
      ("r_value_pointer", Json.orNull (result.map (·.json))), ("context_expression", member.json)]
  | .wrapper .interface operand => [("interface_value", operand.json)]
  | .wrapper .softObject operand => [("value", operand.json)]
  | .wrapper .fieldPath operand => [("value", operand.json)]
  | .classCast _ class_ operand => [("class_ptr", class_.json), ("target", operand.json)]
  | .convert conversion operand =>
    [("conversion_type", .string conversion.tag), ("target", operand.json)]
  | .virtualCall _ function arguments =>
    [("virtual_function_name", .string function), ("parameters", .list (exprsJson arguments))]
  | .finalCall _ function arguments =>
    [("stack_node", function.json), ("parameters", .list (exprsJson arguments))]
  | .changeDelegate _ delegate operand =>
    [("delegate", delegate.json), ("delegate_to_add", operand.json)]
  | .clearDelegate delegate => [("delegate_to_clear", delegate.json)]
  | .callDelegate signature delegate arguments =>
    [("stack_node", signature.json), ("delegate", delegate.json),
      ("parameters", .list (exprsJson arguments))]
  | .bindDelegate function delegate object =>
    [("function_name", .string function), ("delegate", delegate.json), ("object_term", object.json)]
  | .ret operand => [("return_expression", operand.json)]
  | .jump offset => [("code_offset", .int offset.toNat)]
  | .jumpIfNot offset condition =>
    [("code_offset", .int offset.toNat), ("boolean_expression", condition.json)]
  | .computedJump offset => [("code_offset_expression", offset.json)]
  | .pushFlow offset => [("pushing_address", .int offset.toNat)]
  | .popFlowIfNot condition => [("boolean_expression", condition.json)]
  | .switch endOffset index default_ cases =>
    [("end_goto_offset", .int endOffset.toNat), ("index_term", index.json),
      ("default_term", default_.json), ("cases", .list (casesJson cases))]
  | .assert line debug condition =>
    [("line_number", .int line.toNat), ("debug_mode", .bool debug),
      ("assert_expression", condition.json)]
  | .skip offset operand => [("code_offset", .int offset.toNat), ("skip_expression", operand.json)]
  | .instrumentation type name =>
    [("event_type", .int type.toNat), ("event_name", Json.textOrNull name)]
  | .transact transaction offset =>
    [("transaction_id", .int transaction.toInt), ("code_offset", .int offset.toNat)]
  | .stopTransact transaction mode =>
    [("transaction_id", .int transaction.toInt), ("mode", .int mode.toNat)]
  | .abortIfNot condition => [("boolean_expression", condition.json)]

def exprsJson : List Expr → List Json
  | [] => []
  | e :: rest => e.json :: exprsJson rest

def casesJson : List (SwitchCase Expr) → List Json
  | [] => []
  | ⟨key, nextOffset, term⟩ :: rest =>
    .object [("case_index_value_term", key.json), ("next_offset", .int nextOffset.toNat),
      ("case_term", term.json)] :: casesJson rest

end

namespace ScriptFunction

def json (f : ScriptFunction) : Json :=
  .object [("name", .string f.name),
    ("return_property", Json.orNull (f.returnProperty.map (·.json))),
    ("parameters", .list (f.parameters.map (·.json))), ("script", .list (exprsJson f.script))]

end ScriptFunction

namespace ClassProperty

def json (p : ClassProperty) : Json :=
  .object [("property", p.property.json),
    ("default_value", Json.orNull (p.defaultValue.map (·.json)))]

end ClassProperty

namespace ScriptClass

def json (c : ScriptClass) : Json :=
  .object [("name", .string c.name), ("kind", .string c.kind.tag),
    ("super_class", Json.orNull (c.superClass.map (·.json))),
    ("properties", .list (c.properties.map (·.json))),
    ("functions", .list (c.functions.map (·.json)))]

end ScriptClass

namespace RenderOptions

def json (o : RenderOptions) : Json :=
  .object [("qualify_instance_members", .bool o.qualifyInstanceMembers)]

end RenderOptions

namespace ScriptDump

def json : ScriptDump → Json
  | class_ c => .object [("class", c.json)]
  | function f => .object [("function", f.json)]

end ScriptDump

end Pseudocode
