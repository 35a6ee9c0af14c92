import Pseudocode.Script.Expr

/-! Functions and classes: what surrounds a script. -/

namespace Pseudocode

structure ScriptFunction where
  name : String
  returnProperty : Option PropertyDesc
  parameters : List PropertyDesc
  script : List Expr
  deriving Repr

structure ClassProperty where
  property : PropertyDesc
  defaultValue : Option PropertyValue
  deriving Repr

structure ScriptClass where
  name : String
  kind : StructuralKind
  superClass : Option ObjectRef
  properties : List ClassProperty
  functions : List ScriptFunction
  deriving Repr

inductive ScriptDump where
  | class_ (value : ScriptClass)
  | function (value : ScriptFunction)
  deriving Repr

structure RenderOptions where
  /-- Whether members of the object that runs the script are marked as such. -/
  qualifyInstanceMembers : Bool
  deriving DecidableEq, Repr, Inhabited

instance : Inhabited ScriptFunction := ⟨⟨"", none, [], []⟩⟩

instance : Inhabited ScriptClass := ⟨⟨"", .other, none, [], []⟩⟩

def ScriptClass.function? (c : ScriptClass) (name : String) : Option ScriptFunction :=
  c.functions.find? (·.name = name)

def ScriptClass.functionIndex? (c : ScriptClass) (name : String) : Option Nat :=
  c.functions.findIdx? (·.name = name)

def ScriptDump.function? (d : ScriptDump) (name : String) : Option ScriptFunction :=
  match d with
  | class_ c => c.function? name
  | function f => if f.name = name then some f else none

end Pseudocode
