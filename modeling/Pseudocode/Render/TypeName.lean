import Pseudocode.Script.Property

/-! The names of property types. -/

namespace Pseudocode

/-- The name of a type known by its engine name only: what stands between the
first letter and `Property`, or all of it when nothing does. -/
def unknownFieldType (name : String) : String :=
  match name.toList, splitFirst? "Property".toList name.toList with
  | _ :: _, some (_ :: c :: middle, _) => String.ofList (c :: middle)
  | _, _ => name

namespace BasicType

def typeName : BasicType → String
  | int8 => "int8"
  | int16 => "int16"
  | int => "int"
  | int64 => "int64"
  | uint16 => "uint16"
  | uint32 => "uint32"
  | uint64 => "uint64"
  | bool => "bool"
  | float => "float"
  | double => "double"
  | str => "FString"
  | name => unknownFieldType "FNameProperty"
  | text => unknownFieldType "FTextProperty"

end BasicType

namespace DelegateSort

def remark : DelegateSort → String
  | single => " (Delegate)"
  | multicast => " (MulticastDelegateProperty)"
  | multicastInline => " (MulticastInlineDelegateProperty)"
  | multicastSparse => " (MulticastSparseDelegateProperty)"

end DelegateSort

/-- The star that marks the elements of a container as owned. It is no pointer
type: flags of the container or of the element ask for it as well as objects do. -/
def ownershipMark (container : PropertyFlags) (element : PropertyDesc) : String :=
  if container.intersects .owning || element.flags.intersects .owning ||
    element.kind.isObjectValued then "*"
  else ""

mutual

def PropertyDesc.displayName : PropertyDesc → String
  | ⟨_, flags, kind⟩ => kind.structuralKind.letter (kind.typeName flags) ++ kind.typeName flags

def PropertyKind.typeName (flags : PropertyFlags) : PropertyKind → String
  | .basic type => type.typeName
  | .object _ propertyClass => propertyClass.getD "UKN_ObjectPropertyClass"
  | .class_ .strong metaClass => metaClass.getD "UKN_ObjectMetaClass" ++ " Class"
  | .class_ .soft metaClass => metaClass.getD "UKN_ObjectMetaClass" ++ " Class (soft)"
  | .interface interfaceClass => interfaceClass.getD "UKN_InterfaceClass" ++ " interface"
  | .enumeration .enumeration enumName => enumName.getD "Enum"
  | .enumeration .byte enumName => enumName.getD "Byte"
  | .struct structName => structName.getD "Struct"
  | .fieldPath propertyClass => propertyClass ++ " field path"
  | .delegate sort signature => signature.getD "UKN_SignatureFunction" ++ sort.remark
  | .array inner => "TArray<" ++ inner.displayName ++ ownershipMark flags inner ++ ">"
  | .set element => "TSet<" ++ element.displayName ++ ownershipMark flags element ++ ">"
  | .map key value =>
    "TMap<" ++ key.displayName ++ ", " ++ value.displayName ++ ownershipMark flags value ++ ">"
  | .other typeName => unknownFieldType typeName

end

def PropertyDesc.typeName (p : PropertyDesc) : String := p.kind.typeName p.flags

def PropertyDesc.letter (p : PropertyDesc) : String := p.kind.structuralKind.letter p.typeName

end Pseudocode
