import Pseudocode.Text.Search

/-! References out of a script: to objects of the engine and to properties of them. -/

namespace Pseudocode

/-- What an object or property is to the engine, as far as its naming habits
depend on it. -/
inductive StructuralKind where
  | nameProperty | packageIndex | textProperty | structProperty | blueprintGeneratedClass
  | actorProperty
  | objectProperty | softObjectProperty | resolvedScriptObject | resolvedLoadedObject | other
  deriving DecidableEq, Repr, Inhabited

namespace StructuralKind

def all : List StructuralKind := [
  .nameProperty, .packageIndex, .textProperty, .structProperty, .blueprintGeneratedClass,
  .actorProperty, .objectProperty, .softObjectProperty, .resolvedScriptObject,
  .resolvedLoadedObject, .other]

def tag : StructuralKind → String
  | .nameProperty => "NameProperty"
  | .packageIndex => "PackageIndex"
  | .textProperty => "TextProperty"
  | .structProperty => "StructProperty"
  | .blueprintGeneratedClass => "BlueprintGeneratedClass"
  | .actorProperty => "ActorProperty"
  | .objectProperty => "ObjectProperty"
  | .softObjectProperty => "SoftObjectProperty"
  | .resolvedScriptObject => "ResolvedScriptObject"
  | .resolvedLoadedObject => "ResolvedLoadedObject"
  | .other => "Other"

/-- The letter that the engine puts in front of a type's name. `hint` is the name
of the class that an object property points to: pointers to actors take the letter
of actors. -/
def letter (kind : StructuralKind) (hint : String) : String :=
  match kind with
  | .nameProperty | .packageIndex | .textProperty | .structProperty => "F"
  | .blueprintGeneratedClass | .actorProperty => "A"
  | .objectProperty => if occursIn "Actor" hint then "A" else "U"
  | .resolvedScriptObject | .resolvedLoadedObject | .softObjectProperty => "U"
  | .other => ""

end StructuralKind

structure ObjectRef where
  name : String
  kind : StructuralKind := .other
  class? : Option ObjectRef := none
  outer? : Option ObjectRef := none
  deriving Repr, Inhabited

namespace ObjectRef

def withClass (o class_ : ObjectRef) : ObjectRef := { o with class? := some class_ }

def withOuter (o outer : ObjectRef) : ObjectRef := { o with outer? := some outer }

def path : ObjectRef → String
  | ⟨name, _, _, none⟩ => name
  | ⟨name, _, _, some outer⟩ => outer.path ++ "." ++ name

def typeName (o : ObjectRef) : String := o.kind.letter o.name ++ o.name

end ObjectRef

/-- A property by its path or, in scripts of older engines, by its bare name. -/
structure PropertyPointer where
  path? : Option (List String)
  legacyName? : Option String
  isInstanceMember : Bool
  deriving DecidableEq, Repr, Inhabited

namespace PropertyPointer

def empty : PropertyPointer := ⟨none, none, false⟩

def ofPath (segments : List String) : PropertyPointer := ⟨some segments, none, false⟩

def legacy (name : String) : PropertyPointer := ⟨none, some name, false⟩

def instanceMember (p : PropertyPointer) : PropertyPointer := { p with isInstanceMember := true }

/-- The path without spaces. A legacy name keeps them, and is only asked for if
there is no path. -/
def text (p : PropertyPointer) : String :=
  match p.path? with
  | some segments => withoutSpaces (".".intercalate segments)
  | none => p.legacyName?.getD ""

end PropertyPointer

end Pseudocode
