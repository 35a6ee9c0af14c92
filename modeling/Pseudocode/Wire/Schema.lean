import Pseudocode.Script.Outline

/-! The shapes of stored values, and the values that each shape stands for.
Records are lists of fields, so that reading them needs to be said only once. -/

namespace Pseudocode

inductive IntWidth where
  | u8 | u16 | u32 | u64 | i32 | i64
  deriving DecidableEq, Repr

namespace IntWidth

abbrev Carrier : IntWidth → Type
  | u8 => UInt8
  | u16 => UInt16
  | u32 => UInt32
  | u64 => UInt64
  | i32 => Int32
  | i64 => Int64

def name : IntWidth → String
  | u8 => "u8"
  | u16 => "u16"
  | u32 => "u32"
  | u64 => "u64"
  | i32 => "i32"
  | i64 => "i64"

def least : IntWidth → Int
  | u8 | u16 | u32 | u64 => 0
  | i32 => -0x80000000
  | i64 => -0x8000000000000000

def greatest : IntWidth → Int
  | u8 => 0xff
  | u16 => 0xffff
  | u32 => 0xffffffff
  | u64 => 0xffffffffffffffff
  | i32 => 0x7fffffff
  | i64 => 0x7fffffffffffffff

def ofInt? (w : IntWidth) (i : Int) : Option w.Carrier :=
  if w.least ≤ i && i ≤ w.greatest then
    some <| match w with
      | u8 => i.toNat.toUInt8
      | u16 => i.toNat.toUInt16
      | u32 => i.toNat.toUInt32
      | u64 => i.toNat.toUInt64
      | i32 => Int32.ofInt i
      | i64 => Int64.ofInt i
  else none

end IntWidth

inductive Record where
  | objectRef | pointer | vector | vector2D | rotator | quat | transform | switchCase | propertyDesc
  | propertyTag | function | classProperty | class_ | options
  deriving DecidableEq, Repr

inductive Shape where
  | int (width : IntWidth)
  | narrow
  | wide
  | bool
  | text
  | structuralKind
  | conversion
  | list (item : Shape)
  | pair (first second : Shape)
  | record (r : Record)
  | propertyKind
  | structValue
  | propertyValue
  | expr
  deriving DecidableEq, Repr

abbrev Record.Carrier : Record → Type
  | objectRef => ObjectRef
  | pointer => PropertyPointer
  | vector => Vector
  | vector2D => Vector2D
  | rotator => Rotator
  | quat => Quat
  | transform => Transform
  | switchCase => SwitchCase Expr
  | propertyDesc => PropertyDesc
  | propertyTag => PropertyTag
  | function => ScriptFunction
  | classProperty => ClassProperty
  | class_ => ScriptClass
  | options => RenderOptions

abbrev Shape.Carrier : Shape → Type
  | int width => width.Carrier
  | narrow => Binary32
  | wide => Binary64
  | bool => Bool
  | text => String
  | structuralKind => StructuralKind
  | conversion => Conversion
  | list item => List item.Carrier
  | pair first second => first.Carrier × second.Carrier
  | record r => r.Carrier
  | propertyKind => PropertyKind
  | structValue => StructValue
  | propertyValue => PropertyValue
  | expr => Expr

abbrev FieldCarrier (shape : Shape) (nullable : Bool) : Type :=
  match nullable with
  | true => Option shape.Carrier
  | false => shape.Carrier

structure Field where
  name : String
  shape : Shape
  nullable : Bool
  /-- The value of the field when it is left out, if it may be. -/
  absent : Option (FieldCarrier shape nullable)

namespace Field

abbrev Carrier (f : Field) : Type := FieldCarrier f.shape f.nullable

abbrev required (name : String) (shape : Shape) : Field := ⟨name, shape, false, none⟩

abbrev optional (name : String) (shape : Shape) : Field := ⟨name, shape, true, some none⟩

abbrev defaulted (name : String) (shape : Shape) (value : shape.Carrier) : Field :=
  ⟨name, shape, false, some value⟩

end Field

abbrev Args : List Field → Type
  | [] => Unit
  | f :: fs => f.Carrier × Args fs

/-- A value for some of the fields: those that are read so far. -/
abbrev Slots : List Field → Type
  | [] => Unit
  | f :: fs => Option f.Carrier × Slots fs

namespace Slots

def empty : (fs : List Field) → Slots fs
  | [] => ()
  | _ :: fs => (none, empty fs)

end Slots

end Pseudocode
