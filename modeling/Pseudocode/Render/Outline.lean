import Pseudocode.Render.Renderer
import Pseudocode.Render.TypeName

/-! The text of functions and classes. -/

namespace Pseudocode

def PropertyDesc.parameterText (p : PropertyDesc) : String :=
  (if p.flags.contains .constParm then "const " else "") ++ p.displayName ++
    (if p.flags.intersects (PropertyFlags.outParm.union .referenceParm) then "&" else "") ++
    " " ++ p.name

/-- The signature of a function. Its return value is listed among the parameters
and left out here. -/
def ScriptFunction.signature (f : ScriptFunction) : String :=
  let returnType := match f.returnProperty with
    | some p => p.displayName
    | none => "void"
  let parameters := f.parameters.filter fun p => !p.flags.contains .returnParm
  returnType ++ " " ++ f.name ++ "(" ++ ", ".intercalate (parameters.map (·.parameterText)) ++ ")"

/-- Whether the script closes the body of its function by itself. -/
def endsScript (script : List Expr) : Bool :=
  match script.getLast? with
  | some e => e.opcode = .endOfScript
  | none => false

def ScriptFunction.render (f : ScriptFunction) (options : RenderOptions) : String :=
  let r : Renderer := { targets := jumpTargets f.script, options }
  let r := (r.write ("\t" ++ f.signature ++ "\n\t\x7b\n")).renderAll f.script
  (if endsScript f.script then r else r.write "\t\x7d\n").text

def ClassProperty.declaration (p : ClassProperty) : String :=
  "\t" ++ p.property.displayName ++ " " ++ p.property.name
    ++ (match p.defaultValue with
      | some value => " = " ++ value.literal
      | none => "")
    ++ ";\n"

def ScriptClass.header (c : ScriptClass) : String :=
  "class " ++ c.kind.letter c.name ++ c.name
    ++ match c.superClass with
      | some s => " : public " ++ s.typeName
      | none => ""

def ScriptClass.render (c : ScriptClass) (options : RenderOptions) : String :=
  let declarations := String.join (c.properties.map (·.declaration))
  let functions := "\n".intercalate (c.functions.map (·.render options))
  let gap := if c.properties.isEmpty || c.functions.isEmpty then "" else "\n"
  c.header ++ "\n\x7b\npublic:\n" ++ declarations ++ gap ++ functions ++ "\x7d;\n"

namespace ScriptDump

def render (d : ScriptDump) (options : RenderOptions) : String :=
  match d with
  | class_ c => c.render options
  | function f => f.render options

def renderFunction? (d : ScriptDump) (name : String) (options : RenderOptions) : Option String :=
  (d.function? name).map (·.render options)

end ScriptDump

end Pseudocode
