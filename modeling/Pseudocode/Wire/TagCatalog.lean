import Pseudocode.Wire.Schema

/-! Which fields each record and each tagged value is stored with, and what is
made of them. -/

namespace Pseudocode

namespace Record

def title : Record → String
  | objectRef => "ObjectRef"
  | pointer => "PropertyPointer"
  | vector => "Vector"
  | vector2D => "Vector2D"
  | rotator => "Rotator"
  | quat => "Quat"
  | transform => "Transform"
  | switchCase => "SwitchCase"
  | propertyDesc => "PropertyDesc"
  | propertyTag => "PropertyTag"
  | function => "ScriptFunction"
  | classProperty => "ClassProperty"
  | class_ => "ScriptClass"
  | options => "RenderOptions"

abbrev fields : Record → List Field
  | objectRef => [.required "name" .text, .defaulted "kind" .structuralKind .other,
      .optional "class" (.record objectRef), .optional "outer" (.record objectRef)]
  | pointer => [.optional "new" (.list .text), .optional "old" .text,
      .defaulted "is_instance_member" .bool false]
  | vector => [.required "x" .wide, .required "y" .wide, .required "z" .wide]
  | vector2D => [.required "x" .wide, .required "y" .wide]
  | rotator => [.required "pitch" .wide, .required "yaw" .wide, .required "roll" .wide]
  | quat => [.required "x" .wide, .required "y" .wide, .required "z" .wide, .required "w" .wide]
  | transform => [.required "rotation" (.record quat), .required "translation" (.record vector),
      .required "scale_3d" (.record vector)]
  | switchCase => [.required "case_index_value_term" .expr, .defaulted "next_offset" (.int .u32) 0,
      .required "case_term" .expr]
  | propertyDesc => [.defaulted "name" .text "", .defaulted "flags" (.int .u64) 0,
      .required "kind" .propertyKind]
  | propertyTag => [.required "name" .text, .optional "value" .propertyValue]
  | function => [.required "name" .text, .optional "return_property" (.record propertyDesc),
      .defaulted "parameters" (.list (.record propertyDesc)) [],
      .defaulted "script" (.list .expr) []]
  | classProperty =>
    [.required "property" (.record propertyDesc), .optional "default_value" .propertyValue]
  | class_ => [.required "name" .text, .defaulted "kind" .structuralKind .other,
      .optional "super_class" (.record objectRef),
      .defaulted "properties" (.list (.record classProperty)) [],
      .defaulted "functions" (.list (.record function)) []]
  | options => [.defaulted "qualify_instance_members" .bool false]

def build : (r : Record) → Args r.fields → r.Carrier
  | objectRef, (name, kind, class?, outer?, _) => ⟨name, kind, class?, outer?⟩
  | pointer, (path?, legacyName?, isInstanceMember, _) => ⟨path?, legacyName?, isInstanceMember⟩
  | vector, (x, y, z, _) => ⟨x, y, z⟩
  | vector2D, (x, y, _) => ⟨x, y⟩
  | rotator, (pitch, yaw, roll, _) => ⟨pitch, yaw, roll⟩
  | quat, (x, y, z, w, _) => ⟨x, y, z, w⟩
  | transform, (rotation, location, scale3D, _) => ⟨rotation, location, scale3D⟩
  | switchCase, (key, nextOffset, term, _) => ⟨key, nextOffset, term⟩
  | propertyDesc, (name, flags, kind, _) => ⟨name, ⟨flags⟩, kind⟩
  | propertyTag, (name, value, _) => ⟨name, value⟩
  | function, (name, returnProperty, parameters, script, _) =>
    ⟨name, returnProperty, parameters, script⟩
  | classProperty, (property, defaultValue, _) => ⟨property, defaultValue⟩
  | class_, (name, kind, superClass, properties, functions, _) =>
    ⟨name, kind, superClass, properties, functions⟩
  | options, (qualify, _) => ⟨qualify⟩

end Record

inductive DumpTag where
  | class_ | function
  deriving DecidableEq, Repr

namespace DumpTag

def all : List DumpTag := [.class_, .function]

def tag : DumpTag → String
  | class_ => "class"
  | function => "function"

end DumpTag

namespace Conversion

def all : List Conversion :=
  [.objectToInterface, .objectToBool, .interfaceToBool, .doubleToFloat, .floatToDouble]

def tag : Conversion → String
  | objectToInterface => "ObjectToInterface"
  | objectToBool => "ObjectToBool"
  | interfaceToBool => "InterfaceToBool"
  | doubleToFloat => "DoubleToFloat"
  | floatToDouble => "FloatToDouble"

end Conversion

inductive KindTag where
  | basic (type : BasicType)
  | object (link : ObjectLink)
  | class_ (link : ClassLink)
  | interface
  | enumeration (storage : EnumStorage)
  | struct
  | fieldPath
  | delegate (sort : DelegateSort)
  | array
  | set
  | map
  | other
  deriving DecidableEq, Repr

namespace KindTag

def all : List KindTag := [
  .basic .int8, .basic .int16, .basic .int, .basic .int64, .basic .uint16, .basic .uint32,
  .basic .uint64, .basic .bool, .basic .float, .basic .double, .basic .str, .basic .name,
  .basic .text, .object .strong, .object .weak, .object .lazy, .object .soft, .class_ .strong,
  .class_ .soft, .interface, .enumeration .enumeration, .enumeration .byte, .struct, .fieldPath,
  .delegate .single, .delegate .multicast, .delegate .multicastInline, .delegate .multicastSparse,
  .array, .set, .map, .other]

def tag : KindTag → String
  | basic .int8 => "Int8"
  | basic .int16 => "Int16"
  | basic .int => "Int"
  | basic .int64 => "Int64"
  | basic .uint16 => "UInt16"
  | basic .uint32 => "UInt32"
  | basic .uint64 => "UInt64"
  | basic .bool => "Bool"
  | basic .float => "Float"
  | basic .double => "Double"
  | basic .str => "Str"
  | basic .name => "Name"
  | basic .text => "Text"
  | object .strong => "Object"
  | object .weak => "WeakObject"
  | object .lazy => "LazyObject"
  | object .soft => "SoftObject"
  | class_ .strong => "Class"
  | class_ .soft => "SoftClass"
  | interface => "Interface"
  | enumeration .enumeration => "Enum"
  | enumeration .byte => "Byte"
  | struct => "Struct"
  | fieldPath => "FieldPath"
  | delegate .single => "Delegate"
  | delegate .multicast => "MulticastDelegate"
  | delegate .multicastInline => "MulticastInlineDelegate"
  | delegate .multicastSparse => "MulticastSparseDelegate"
  | array => "Array"
  | set => "Set"
  | map => "Map"
  | other => "Other"

abbrev fields : KindTag → List Field
  | basic _ => []
  | object _ => [.optional "property_class" .text]
  | class_ _ => [.optional "meta_class" .text]
  | interface => [.optional "interface_class" .text]
  | enumeration _ => [.optional "enum_name" .text]
  | struct => [.optional "struct_name" .text]
  | fieldPath => [.required "property_class" .text]
  | delegate _ => [.optional "signature_function" .text]
  | array => [.required "inner" (.record .propertyDesc)]
  | set => [.required "element" (.record .propertyDesc)]
  | map => [.required "key" (.record .propertyDesc), .required "value" (.record .propertyDesc)]
  | other => [.required "type_name" .text]

def build : (t : KindTag) → Args t.fields → PropertyKind
  | basic type, _ => .basic type
  | object link, (name, _) => .object link name
  | class_ link, (name, _) => .class_ link name
  | interface, (name, _) => .interface name
  | enumeration storage, (name, _) => .enumeration storage name
  | struct, (name, _) => .struct name
  | fieldPath, (name, _) => .fieldPath name
  | delegate sort, (name, _) => .delegate sort name
  | array, (inner, _) => .array inner
  | set, (element, _) => .set element
  | map, (key, value, _) => .map key value
  | other, (name, _) => .other name

def title (t : KindTag) : String := "struct variant PropertyKind::" ++ t.tag

end KindTag

inductive StructTag where
  | vector | vector2D | rotator | quat | guid | color | linearColor | softObjectPath | uniqueNetId
  | navAgentSelector | box | box2D | intVector | floatVector | floatVector2D | dateTime | bag
  | tagContainer
  | raw
  deriving DecidableEq, Repr

namespace StructTag

def all : List StructTag := [
  .vector, .vector2D, .rotator, .quat, .guid, .color, .linearColor, .softObjectPath, .uniqueNetId,
  .navAgentSelector, .box, .box2D, .intVector, .floatVector, .floatVector2D, .dateTime, .bag,
  .tagContainer, .raw]

def tag : StructTag → String
  | vector => "Vector"
  | vector2D => "Vector2D"
  | rotator => "Rotator"
  | quat => "Quat"
  | guid => "Guid"
  | color => "Color"
  | linearColor => "LinearColor"
  | softObjectPath => "SoftObjectPath"
  | uniqueNetId => "UniqueNetIdRepl"
  | navAgentSelector => "NavAgentSelector"
  | box => "Box"
  | box2D => "Box2D"
  | intVector => "IntVector"
  | floatVector => "FloatVector"
  | floatVector2D => "FloatVector2D"
  | dateTime => "DateTime"
  | bag => "Fallback"
  | tagContainer => "GameplayTagContainer"
  | raw => "Raw"

abbrev fields : StructTag → List Field
  | vector => Record.vector.fields
  | vector2D => Record.vector2D.fields
  | rotator => Record.rotator.fields
  | quat => Record.quat.fields
  | guid => [.required "a" (.int .u32), .required "b" (.int .u32), .required "c" (.int .u32),
      .required "d" (.int .u32)]
  | color => [.required "r" (.int .u8), .required "g" (.int .u8), .required "b" (.int .u8),
      .required "a" (.int .u8)]
  | linearColor =>
    [.required "r" .narrow, .required "g" .narrow, .required "b" .narrow, .required "a" .narrow]
  | softObjectPath => [.required "asset_path_name" .text]
  | uniqueNetId => [.optional "unique_net_id" .text]
  | navAgentSelector => [.required "packed_bits" (.int .u32)]
  | box => [.required "min" (.record .vector), .required "max" (.record .vector)]
  | box2D => [.required "min" (.record .vector2D), .required "max" (.record .vector2D)]
  | intVector => [.required "x" (.int .i32), .required "y" (.int .i32), .required "z" (.int .i32)]
  | floatVector => [.required "x" .narrow, .required "y" .narrow, .required "z" .narrow]
  | floatVector2D => [.required "x" .narrow, .required "y" .narrow]
  | dateTime => [.required "ticks" (.int .i64)]
  | bag => [.defaulted "properties" (.list (.record .propertyTag)) []]
  | tagContainer => [.defaulted "tags" (.list .text) []]
  | raw => [.optional "text" .text]

def build : (t : StructTag) → Args t.fields → StructValue
  | vector, args => .vector (Record.vector.build args)
  | vector2D, args => .vector2D (Record.vector2D.build args)
  | rotator, args => .rotator (Record.rotator.build args)
  | quat, args => .quat (Record.quat.build args)
  | guid, (a, b, c, d, _) => .guid a b c d
  | color, (r, g, b, a, _) => .color r g b a
  | linearColor, (r, g, b, a, _) => .linearColor r g b a
  | softObjectPath, (path, _) => .softObjectPath path
  | uniqueNetId, (id, _) => .uniqueNetId id
  | navAgentSelector, (bits, _) => .navAgentSelector bits
  | box, (min, max, _) => .box min max
  | box2D, (min, max, _) => .box2D min max
  | intVector, (x, y, z, _) => .intVector x y z
  | floatVector, (x, y, z, _) => .floatVector x y z
  | floatVector2D, (x, y, _) => .floatVector2D x y
  | dateTime, (ticks, _) => .dateTime ticks
  | bag, (properties, _) => .bag properties
  | tagContainer, (tags, _) => .tagContainer tags
  | raw, (text, _) => .raw text

/-- The name of a struct's fields in messages. The first four are records that
also stand by themselves. -/
def title : StructTag → String
  | vector => "struct Vector"
  | vector2D => "struct Vector2D"
  | rotator => "struct Rotator"
  | quat => "struct Quat"
  | box => "struct variant StructValue::Box3"
  | t => "struct variant StructValue::" ++ t.tag

end StructTag

inductive ValueTag where
  | bool | int | uint | float
  | text (sort : TextSort)
  | object | struct | array | map
  deriving DecidableEq, Repr

namespace ValueTag

def all : List ValueTag := [
  .bool, .int, .uint, .float, .text .str, .text .name, .text .text, .text .enumeration, .object,
  .struct, .array, .map]

def tag : ValueTag → String
  | bool => "Bool"
  | int => "Int"
  | uint => "UInt"
  | float => "Float"
  | text .str => "Str"
  | text .name => "Name"
  | text .text => "Text"
  | text .enumeration => "Enum"
  | object => "Object"
  | struct => "Struct"
  | array => "Array"
  | map => "Map"

/-- What is stored beside the tag. Only the path of an object may be left out. -/
abbrev field : ValueTag → Field
  | bool => .required "value" .bool
  | int => .required "value" (.int .i64)
  | uint => .required "value" (.int .u64)
  | float => .required "value" .wide
  | text _ => .required "value" .text
  | object => .optional "value" .text
  | struct => .required "value" .structValue
  | array => .required "value" (.list .propertyValue)
  | map => .required "value" (.list (.pair .propertyValue .propertyValue))

def build : (t : ValueTag) → t.field.Carrier → PropertyValue
  | bool, v => .bool v
  | int, v => .int v
  | uint, v => .uint v
  | float, v => .float v
  | text sort, v => .text sort v
  | object, v => .object v
  | struct, v => .struct v
  | array, v => .array v
  | map, v => .map v

end ValueTag

end Pseudocode
