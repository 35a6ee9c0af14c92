import Pseudocode.Render.Label
import Pseudocode.Render.Literal
import Pseudocode.Script.Outline
import Pseudocode.Text.Quoted

/-! What a node by itself is rendered to: texts, with places for its operands
between them. No operand is looked into here further than to see what kind of node
it is. -/

namespace Pseudocode

inductive RenderMode where
  | statement | expression
  deriving DecidableEq, Repr, Inhabited

inductive Part where
  | text (s : String)
  /-- The indentation of a statement, unless the line has begun already. -/
  | margin
  | operand (mode : RenderMode) (e : Expr)
  deriving Repr

abbrev Part.inside (e : Expr) : Part := .operand .expression e

def indentation : String := "\t\t"

def terminator : String := ";\n\n"

/-- Parts that only a statement has. -/
def RenderMode.inStatement (mode : RenderMode) (ps : List Part) : List Part :=
  match mode with
  | .statement => ps
  | .expression => []

def RenderMode.wrap (mode : RenderMode) (body : List Part) : List Part :=
  mode.inStatement [.text indentation] ++ body ++ mode.inStatement [.text terminator]

def PropertyPointer.variableText (options : RenderOptions) (p : PropertyPointer) : String :=
  if options.qualifyInstanceMembers && p.isInstanceMember then "this->" ++ p.text else p.text

def ObjectRef.findText (o : ObjectRef) : String :=
  let class_ := match o.class? with
    | some c => c.kind.letter "" ++ String.ofList (afterLast '.' c.name.toList)
    | none => "UNKNOWN"
  let outer := match o.outer? with
    | some outer => outer.path
    | none => "UNKNOWN"
  "FindObject<" ++ class_ ++ ">(" ++ inQuotes (outer ++ "." ++ o.name) ++ ")"

def ObjectRef.functionText (o : ObjectRef) : String := withoutSpaces o.name

def ObjectRef.mathText (o : ObjectRef) : String :=
  let owner := match o.outer? with
    | some outer => outer.kind.letter "" ++ withoutSpaces outer.name
    | none => "UKN_Outer"
  owner ++ "::" ++ o.name

def ObjectRef.ownerLetter (o : ObjectRef) : String :=
  match o.outer? with
  | some outer => outer.kind.letter ""
  | none => StructuralKind.other.letter ""

namespace Atom

def text : Atom → String
  | self => "this"
  | intZero => "0"
  | intOne => "1"
  | trueConst => "true"
  | falseConst => "false"
  | noObject | noInterface => "nullptr"
  | _ => ""

end Atom

namespace Conversion

def text : Conversion → String
  | objectToInterface => ""
  | objectToBool | interfaceToBool => "(bool)"
  | doubleToFloat => "(float)"
  | floatToDouble => "(double)"

end Conversion

namespace DelegateChange

def method : DelegateChange → String
  | add => ".AddDelegate("
  | remove => ".RemoveDelegate("

end DelegateChange

namespace ContainerKind

def typeName : ContainerKind → String
  | array => "TArray"
  | set => "TSet"
  | map => "TMap"

end ContainerKind

namespace Node

variable {ε : Type}

/-- Whether a multicast delegate can be reached through the node. -/
def isDelegateReceiver : Node ε → Bool
  | var .stackLocal _ | var .member _ | context .object .. => true
  | _ => false

def truth? : Node ε → Option Bool
  | atom .trueConst => some true
  | atom .falseConst => some false
  | _ => none

def isArrayLiteral : Node ε → Bool
  | array .. => true
  | _ => false

def int? : Node ε → Option Int32
  | int32 value => some value
  | _ => none

def isNothing : Node ε → Bool
  | atom .nothing => true
  | _ => false

end Node

/-- A switch is a choice between two values when it has at most two cases and all
their keys are truth values. -/
def isTernary (cases : List (SwitchCase Expr)) : Bool :=
  cases.length ≤ 2 && cases.all fun c => c.key.node.truth?.isSome

/-- An assignment is terminated even inside an expression if it takes the result
of a call. -/
def assignmentParts (mode : RenderMode) (target assignment : Expr) : List Part :=
  mode.inStatement [.text indentation] ++ [.inside target, .text " = ", .inside assignment]
    ++ if mode = .statement || assignment.isCall then [.text terminator] else []

def onLines (arguments : List Expr) : Bool := 4 < arguments.length

def argumentParts (lines : Bool) : List Expr → List Part
  | [] => []
  | e :: rest =>
    (if lines then [.text "\n\t\t\t"] else []) ++ .inside e ::
      (if rest.isEmpty then [] else [.text ", "]) ++ argumentParts lines rest

def callParts (callee : String) (arguments : List Expr) : List Part :=
  .text callee :: .text "(" :: argumentParts (onLines arguments) arguments ++ [.text ")"]

def elementParts : List Expr → List Part
  | [] => []
  | e :: rest =>
    .text " " :: .inside e :: (if rest.isEmpty then [] else [.text ","]) ++ elementParts rest

def pairParts : List Expr → List Part
  | [] => []
  | [key] => [.text " ", .inside key]
  | key :: value :: rest =>
    .text " " :: .inside key :: .text ": " :: .inside value ::
      (if rest.isEmpty then [] else [.text ","]) ++ pairParts rest

def containerParts (kind : ContainerKind) (elements : List Expr) : List Part :=
  .text (kind.typeName ++ " \x7b") ::
    (if kind = .map then pairParts elements else elementParts elements) ++
    [.text (if elements.isEmpty then "  \x7d" else " \x7d")]

/-- The fields of a struct. No comma follows an array. -/
def fieldParts : List Expr → List Part
  | [] => []
  | e :: rest =>
    .inside e :: (if rest.isEmpty || e.node.isArrayLiteral then [] else [.text ", "]) ++
      fieldParts rest

def branches (key : Bool) (cases : List (SwitchCase Expr)) : List Expr :=
  (cases.filter (·.key.node.truth? = some key)).map (·.term)

def ternaryTerms (cases : List (SwitchCase Expr)) : List Expr :=
  branches true cases ++ branches false cases

/-- One case of a switch. A constant integer as a key gets no label. -/
def caseParts (c : SwitchCase Expr) : List Part :=
  (match c.key.node.int? with
    | some value => [.text ("\t\t\tcase " ++ toString value.toInt ++ ":\n")]
    | none => [.text "\t\t\tcase ", .inside c.key, .text ":\n"])
    ++ [.text "\t\t\t\x7b\n\t\t\t    ", .inside c.term, .text ";\n\t\t\t    break;\n\t\t\t\x7d\n"]

/-- What a node is rendered to, operands left in place. -/
def Node.layout (o : RenderOptions) (mode : RenderMode) : Node Expr → List Part
  | .atom a => if a = .endOfScript then mode.inStatement [.text "\t\x7d\n"] else [.text a.text]
  | .var _ pointer => [.text (pointer.variableText o)]
  | .propertyConst pointer => [.text pointer.text]
  | .int32 value => [.text (toString value.toInt)]
  | .int64 value => [.text (toString value.toInt)]
  | .uint64 value => [.text (toString value.toNat)]
  | .skipOffset value => [.text (toString value.toNat)]
  | .byte _ value => [.text ("0x" ++ String.ofList (hexDigits 'A' value.toNat))]
  | .bitField _ value => [.text (toString value.toNat)]
  | .float value => [.text value.plainText]
  | .double value => [.text value.constantText]
  | .literal _ value => [.text (inQuotes value)]
  | .unicodeString value => [.text value]
  | .delegateName function => [.text (inQuotes function)]
  | .text none => [.text "nullptr"]
  | .text (some source) => [.inside source]
  | .objectConst value => mode.inStatement [.margin] ++ [.text value.findText]
  | .vector value => [.text value.text]
  | .vector3f value =>
    [.text (constructorText "FVector3f" [value.x.plainText, value.y.plainText, value.z.plainText])]
  | .rotation value => [.text value.text]
  | .transform value => [.text value.text]
  | .struct type _ fields => .text (type.typeName ++ "(") :: fieldParts fields ++ [.text ")"]
  | .array _ elements => containerParts .array elements
  | .set _ elements => containerParts .set elements
  | .map _ _ elements => containerParts .map elements
  | .fill kind target elements =>
    mode.wrap (.inside target :: .text " = " :: containerParts kind elements)
  | .assign _ target assignment | .letKind _ target assignment =>
    assignmentParts mode target assignment
  | .persistentLet destination assignment =>
    mode.wrap
      ((if occursIn "K2Node_" destination.text then [.text "UberGraphFrame->"] else [])
        ++ [.text destination.text, .text " = ", .inside assignment])
  | .memberOf member owner => [.inside owner, .text ".", .text member.text]
  | .elementOf container position => [.inside container, .text "[", .inside position, .text "]"]
  | .context .failSilent object _ _ member =>
    match mode with
    | .statement => mode.wrap [.inside object, .text "->", .inside member]
    | .expression => [.inside object]
  | .context _ object _ _ member =>
    mode.inStatement [.margin] ++ [.inside object, .text "->", .inside member]
      ++ mode.inStatement [.text terminator]
  | .wrapper _ operand => [.operand mode operand]
  | .classCast _ class_ operand =>
    mode.wrap [.text ("Cast<" ++ class_.typeName ++ "*>("), .inside operand, .text ")"]
  | .convert .objectToInterface operand => [.operand mode operand]
  | .convert conversion operand => mode.wrap [.text conversion.text, .inside operand]
  | .virtualCall _ function arguments => mode.wrap (callParts (withoutSpaces function) arguments)
  | .finalCall .math function arguments => mode.wrap (callParts function.mathText arguments)
  | .finalCall .anywhere function arguments =>
    mode.inStatement [.text indentation] ++ callParts function.functionText arguments
      ++ mode.inStatement [.text ";\n"]
  | .finalCall .onSelf function arguments =>
    mode.inStatement [.text indentation]
      ++ (if arguments.isEmpty then [] else mode.inStatement [.text function.ownerLetter])
      ++ callParts function.functionText arguments ++ mode.inStatement [.text ";\n"]
  | .changeDelegate change delegate operand =>
    if delegate.node.isDelegateReceiver then
      mode.wrap [.inside delegate, .text change.method, .inside operand, .text ")"]
    else []
  | .clearDelegate delegate => mode.wrap [.inside delegate, .text ".Clear()"]
  | .callDelegate _ delegate arguments =>
    if delegate.node.isDelegateReceiver then
      mode.wrap (.inside delegate :: callParts ".Call" arguments)
    else []
  | .bindDelegate function delegate object =>
    mode.wrap [.inside delegate, .text ".BindUFunction(", .inside object,
      .text (", " ++ inQuotes function ++ ")")]
  | .ret operand =>
    mode.wrap [.text "return", .text (if operand.node.isNothing then "" else " "), .inside operand]
  | .jump offset => mode.wrap [.text ("goto " ++ labelName offset)]
  | .jumpIfNot offset condition =>
    mode.wrap [.text "if (!", .inside condition, .text (") goto " ++ labelName offset)]
  | .computedJump offset =>
    mode.wrap [.text "goto ",
      match constantOffset? offset.node with
      | some target => .text (labelName target)
      | none => .inside offset]
  | .pushFlow _ => []
  | .popFlowIfNot condition =>
    mode.wrap [.text "if (!", .inside condition, .text ") FlowStack.Pop()"]
  | .switch _ index default_ cases =>
    if isTernary cases then
      mode.wrap (.inside index :: .text " ? "
        :: ((ternaryTerms cases).map .inside).intersperse (.text " : "))
    else
      mode.inStatement [.text indentation] ++ .text "switch (" :: .inside index
        :: .text ")\n\t\t\x7b\n" :: cases.flatMap caseParts
        ++ [.text "\t\t\tdefault:\n\t\t\t\x7b\n\t\t\t    ", .inside default_,
          .text "\n\t\t\t\x7d\n\t\t\x7d"]
        ++ mode.inStatement [.text "\n\n"]
  | .assert _ _ _ => [.text Opcode.assert.name]
  | .skip _ _ => [.text Opcode.skip.name]
  | .instrumentation _ _ => [.text Opcode.instrumentationEvent.name]
  | .transact _ _ => []
  | .stopTransact _ _ => []
  | .abortIfNot _ => []

end Pseudocode
