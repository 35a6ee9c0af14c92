import Pseudocode.Script.Reference
import Pseudocode.Decimal.Numeral

/-! Properties: what type of value they hold, and the values themselves. -/

namespace Pseudocode

structure PropertyFlags where
  bits : UInt64
  deriving DecidableEq, Repr, Inhabited

namespace PropertyFlags

def none : PropertyFlags := ⟨0⟩
def constParm : PropertyFlags := ⟨0x2⟩
def parm : PropertyFlags := ⟨0x80⟩
def outParm : PropertyFlags := ⟨0x100⟩
def returnParm : PropertyFlags := ⟨0x400⟩
def instancedReference : PropertyFlags := ⟨0x80000⟩
def referenceParm : PropertyFlags := ⟨0x8000000⟩
def containsInstancedReference : PropertyFlags := ⟨0x8000000000⟩

def union (a b : PropertyFlags) : PropertyFlags := ⟨a.bits ||| b.bits⟩

def contains (a b : PropertyFlags) : Bool := a.bits &&& b.bits = b.bits

def intersects (a b : PropertyFlags) : Bool := a.bits &&& b.bits ≠ 0

/-- Any of these makes the elements of a container owned. -/
def owning : PropertyFlags :=
  (instancedReference.union referenceParm).union containsInstancedReference

end PropertyFlags

inductive BasicType where
  | int8 | int16 | int | int64 | uint16 | uint32 | uint64 | bool | float | double | str | name
  | text
  deriving DecidableEq, Repr, Inhabited

inductive ObjectLink where
  | strong | weak | lazy | soft
  deriving DecidableEq, Repr, Inhabited

inductive ClassLink where
  | strong | soft
  deriving DecidableEq, Repr, Inhabited

inductive EnumStorage where
  | enumeration | byte
  deriving DecidableEq, Repr, Inhabited

inductive DelegateSort where
  | single | multicast | multicastInline | multicastSparse
  deriving DecidableEq, Repr, Inhabited

mutual

structure PropertyDesc where
  name : String
  flags : PropertyFlags
  kind : PropertyKind
  deriving Repr

inductive PropertyKind where
  | basic (type : BasicType)
  | object (link : ObjectLink) (propertyClass : Option String)
  | class_ (link : ClassLink) (metaClass : Option String)
  | interface (interfaceClass : Option String)
  | enumeration (storage : EnumStorage) (enumName : Option String)
  | struct (structName : Option String)
  | fieldPath (propertyClass : String)
  | delegate (sort : DelegateSort) (signature : Option String)
  | array (inner : PropertyDesc)
  | set (element : PropertyDesc)
  | map (key value : PropertyDesc)
  /-- A type known by its engine name only. -/
  | other (typeName : String)
  deriving Repr

end

instance : Inhabited PropertyKind := ⟨.basic .int⟩

instance : Inhabited PropertyDesc := ⟨⟨"", .none, default⟩⟩

namespace PropertyDesc

def unflagged (name : String) (kind : PropertyKind) : PropertyDesc := ⟨name, .none, kind⟩

def withFlags (p : PropertyDesc) (flags : PropertyFlags) : PropertyDesc := { p with flags }

end PropertyDesc

namespace PropertyKind

def structuralKind : PropertyKind → StructuralKind
  | basic .name => .nameProperty
  | basic .text => .textProperty
  | struct _ => .structProperty
  | object .strong _ => .objectProperty
  | object .soft _ => .softObjectProperty
  | _ => .other

def isObjectValued : PropertyKind → Bool
  | object .. | class_ .. => true
  | _ => false

end PropertyKind

structure Vector where
  x : Binary64
  y : Binary64
  z : Binary64
  deriving DecidableEq, Repr, Inhabited

structure Vector2D where
  x : Binary64
  y : Binary64
  deriving DecidableEq, Repr, Inhabited

structure Rotator where
  pitch : Binary64
  yaw : Binary64
  roll : Binary64
  deriving DecidableEq, Repr, Inhabited

structure Quat where
  x : Binary64
  y : Binary64
  z : Binary64
  w : Binary64
  deriving DecidableEq, Repr, Inhabited

structure Transform where
  rotation : Quat
  location : Vector
  scale3D : Vector
  deriving DecidableEq, Repr, Inhabited

inductive TextSort where
  | str | name | text | enumeration
  deriving DecidableEq, Repr, Inhabited

mutual

inductive PropertyValue where
  | bool (value : Bool)
  | int (value : Int64)
  | uint (value : UInt64)
  | float (value : Binary64)
  | text (sort : TextSort) (value : String)
  | object (path : Option String)
  | struct (value : StructValue)
  | array (items : List PropertyValue)
  | map (entries : List (PropertyValue × PropertyValue))
  deriving Repr

/-- A struct with a spelling of its own; any other is a bag of named values, or
text written elsewhere. -/
inductive StructValue where
  | vector (value : Vector)
  | vector2D (value : Vector2D)
  | rotator (value : Rotator)
  | quat (value : Quat)
  | guid (a b c d : UInt32)
  | color (r g b a : UInt8)
  | linearColor (r g b a : Binary32)
  | softObjectPath (assetPathName : String)
  | uniqueNetId (id : Option String)
  | navAgentSelector (packedBits : UInt32)
  | box (min max : Vector)
  | box2D (min max : Vector2D)
  | intVector (x y z : Int32)
  | floatVector (x y z : Binary32)
  | floatVector2D (x y : Binary32)
  | dateTime (ticks : Int64)
  | bag (properties : List PropertyTag)
  | tagContainer (tags : List String)
  | raw (text : Option String)
  deriving Repr

structure PropertyTag where
  name : String
  value : Option PropertyValue
  deriving Repr

end

instance : Inhabited PropertyValue := ⟨.bool false⟩

instance : Inhabited StructValue := ⟨.raw none⟩

end Pseudocode
