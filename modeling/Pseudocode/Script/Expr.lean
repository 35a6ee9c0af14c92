import Pseudocode.Script.Opcode
import Pseudocode.Script.Property

/-! The expressions of a script. A `Node` is one instruction over operands of any
type, so that an operation on all operands is said once; an `Expr` is a node over
expressions, with the offset it stands at. -/

namespace Pseudocode

inductive VariableKind where
  | stackLocal | member | classDefault | outParameter | sparseData
  deriving DecidableEq, Repr, Inhabited

inductive Atom where
  | nothing | nothingInt32 | endParmValue | endFunctionParms | self | intZero | intOne | trueConst
  | falseConst | noObject | endStructConst | endArray | noInterface | endSet | endMap | endSetConst
  | endMapConst | deprecatedOp4A | popExecutionFlow | breakpoint | endOfScript | wireTracepoint
  | tracepoint | endArrayConst
  deriving DecidableEq, Repr, Inhabited

inductive LetKind where
  | bool | object | weakObject | delegate | multicastDelegate
  deriving DecidableEq, Repr, Inhabited

/-- How a member of another object is reached; the last kind gives up quietly on a
missing object. -/
inductive ContextKind where
  | object | ofClass | failSilent
  deriving DecidableEq, Repr, Inhabited

inductive ClassCastKind where
  | ofClass | dynamic | toInterface | acrossInterfaces | fromInterface
  deriving DecidableEq, Repr, Inhabited

inductive Conversion where
  | objectToInterface | objectToBool | interfaceToBool | doubleToFloat | floatToDouble
  deriving DecidableEq, Repr, Inhabited

inductive VirtualCallKind where
  | anywhere | onSelf
  deriving DecidableEq, Repr, Inhabited

inductive FinalCallKind where
  | anywhere | onSelf | math
  deriving DecidableEq, Repr, Inhabited

inductive ByteKind where
  | byte | int
  deriving DecidableEq, Repr, Inhabited

inductive LiteralKind where
  | string | name
  deriving DecidableEq, Repr, Inhabited

inductive ContainerKind where
  | array | set | map
  deriving DecidableEq, Repr, Inhabited

inductive WrapperKind where
  | interface | softObject | fieldPath
  deriving DecidableEq, Repr, Inhabited

inductive DelegateChange where
  | add | remove
  deriving DecidableEq, Repr, Inhabited

structure SwitchCase (ε : Type) where
  key : ε
  nextOffset : UInt32
  term : ε
  deriving DecidableEq, Repr

inductive Node (ε : Type) where
  | atom (atom : Atom)
  | var (kind : VariableKind) (pointer : PropertyPointer)
  | propertyConst (pointer : PropertyPointer)
  | int32 (value : Int32)
  | int64 (value : Int64)
  | uint64 (value : UInt64)
  | skipOffset (value : UInt32)
  | byte (kind : ByteKind) (value : UInt8)
  | bitField (inner : PropertyPointer) (value : UInt8)
  | float (value : Binary32)
  | double (value : Binary64)
  | literal (kind : LiteralKind) (value : String)
  | unicodeString (value : String)
  | delegateName (functionName : String)
  | text (source : Option ε)
  | objectConst (value : ObjectRef)
  | vector (value : Vector)
  | vector3f (value : Vector)
  | rotation (value : Rotator)
  | transform (value : Transform)
  | struct (type : ObjectRef) (size : Int32) (fields : List ε)
  | array (inner : PropertyPointer) (elements : List ε)
  | set (inner : PropertyPointer) (elements : List ε)
  | map (key value : PropertyPointer) (elements : List ε)
  | fill (kind : ContainerKind) (target : ε) (elements : List ε)
  | assign (value : PropertyPointer) (target assignment : ε)
  | letKind (kind : LetKind) (target assignment : ε)
  | persistentLet (destination : PropertyPointer) (assignment : ε)
  | memberOf (member : PropertyPointer) (struct : ε)
  | elementOf (container position : ε)
  | context (kind : ContextKind) (object : ε) (offset : UInt32) (result : Option PropertyPointer)
      (member : ε)
  | wrapper (kind : WrapperKind) (operand : ε)
  | classCast (kind : ClassCastKind) (class_ : ObjectRef) (operand : ε)
  | convert (conversion : Conversion) (operand : ε)
  | virtualCall (kind : VirtualCallKind) (function : String) (arguments : List ε)
  | finalCall (kind : FinalCallKind) (function : ObjectRef) (arguments : List ε)
  | changeDelegate (change : DelegateChange) (delegate operand : ε)
  | clearDelegate (delegate : ε)
  | callDelegate (signature : ObjectRef) (delegate : ε) (arguments : List ε)
  | bindDelegate (function : String) (delegate object : ε)
  | ret (operand : ε)
  | jump (offset : UInt32)
  | jumpIfNot (offset : UInt32) (condition : ε)
  | computedJump (offset : ε)
  | pushFlow (offset : UInt32)
  | popFlowIfNot (condition : ε)
  | switch (endOffset : UInt32) (index default_ : ε) (cases : List (SwitchCase ε))
  | assert (line : UInt16) (debug : Bool) (condition : ε)
  | skip (offset : UInt32) (operand : ε)
  | instrumentation (eventType : UInt8) (eventName : Option String)
  | transact (transaction : Int32) (offset : UInt32)
  | stopTransact (transaction : Int32) (mode : UInt8)
  | abortIfNot (condition : ε)
  deriving Repr

/-- An instruction with its operands, and the offset at which it stands in the script. -/
structure Expr where
  index : UInt32
  node : Node Expr
  deriving Repr

instance : Inhabited Expr := ⟨⟨0, .atom .nothing⟩⟩

namespace VariableKind

def opcode : VariableKind → Opcode
  | stackLocal => .localVariable
  | member => .instanceVariable
  | classDefault => .defaultVariable
  | outParameter => .localOutVariable
  | sparseData => .classSparseDataVariable

end VariableKind

namespace Atom

def opcode : Atom → Opcode
  | nothing => .nothing
  | nothingInt32 => .nothingInt32
  | endParmValue => .endParmValue
  | endFunctionParms => .endFunctionParms
  | self => .self
  | intZero => .intZero
  | intOne => .intOne
  | trueConst => .trueConst
  | falseConst => .falseConst
  | noObject => .noObject
  | endStructConst => .endStructConst
  | endArray => .endArray
  | noInterface => .noInterface
  | endSet => .endSet
  | endMap => .endMap
  | endSetConst => .endSetConst
  | endMapConst => .endMapConst
  | deprecatedOp4A => .deprecatedOp4A
  | popExecutionFlow => .popExecutionFlow
  | breakpoint => .breakpoint
  | endOfScript => .endOfScript
  | wireTracepoint => .wireTracepoint
  | tracepoint => .tracepoint
  | endArrayConst => .endArrayConst

end Atom

namespace Node

variable {ε : Type}

def opcode : Node ε → Opcode
  | atom a => a.opcode
  | var kind _ => kind.opcode
  | propertyConst _ => .propertyConst
  | int32 _ => .intConst
  | int64 _ => .int64Const
  | uint64 _ => .uint64Const
  | skipOffset _ => .skipOffsetConst
  | byte .byte _ => .byteConst
  | byte .int _ => .intConstByte
  | bitField _ _ => .bitFieldConst
  | float _ => .floatConst
  | double _ => .doubleConst
  | literal .string _ => .stringConst
  | literal .name _ => .nameConst
  | unicodeString _ => .unicodeStringConst
  | delegateName _ => .instanceDelegate
  | text _ => .textConst
  | objectConst _ => .objectConst
  | vector _ => .vectorConst
  | vector3f _ => .vector3fConst
  | rotation _ => .rotationConst
  | transform _ => .transformConst
  | struct _ _ _ => .structConst
  | array _ _ => .arrayConst
  | set _ _ => .setConst
  | map _ _ _ => .mapConst
  | fill .array _ _ => .setArray
  | fill .set _ _ => .setSet
  | fill .map _ _ => .setMap
  | assign _ _ _ => .assign
  | letKind .bool _ _ => .letBool
  | letKind .object _ _ => .letObj
  | letKind .weakObject _ _ => .letWeakObjPtr
  | letKind .delegate _ _ => .letDelegate
  | letKind .multicastDelegate _ _ => .letMulticastDelegate
  | persistentLet _ _ => .letValueOnPersistentFrame
  | memberOf _ _ => .structMemberContext
  | elementOf _ _ => .arrayGetByRef
  | context .object _ _ _ _ => .context
  | context .ofClass _ _ _ _ => .classContext
  | context .failSilent _ _ _ _ => .contextFailSilent
  | wrapper .interface _ => .interfaceContext
  | wrapper .softObject _ => .softObjectConst
  | wrapper .fieldPath _ => .fieldPathConst
  | classCast .ofClass _ _ => .metaCast
  | classCast .dynamic _ _ => .dynamicCast
  | classCast .toInterface _ _ => .objToInterfaceCast
  | classCast .acrossInterfaces _ _ => .crossInterfaceCast
  | classCast .fromInterface _ _ => .interfaceToObjCast
  | convert _ _ => .convert
  | virtualCall .anywhere _ _ => .virtualFunction
  | virtualCall .onSelf _ _ => .localVirtualFunction
  | finalCall .anywhere _ _ => .finalFunction
  | finalCall .onSelf _ _ => .localFinalFunction
  | finalCall .math _ _ => .callMath
  | changeDelegate .add _ _ => .addMulticastDelegate
  | changeDelegate .remove _ _ => .removeMulticastDelegate
  | clearDelegate _ => .clearMulticastDelegate
  | callDelegate _ _ _ => .callMulticastDelegate
  | bindDelegate _ _ _ => .bindDelegate
  | ret _ => .ret
  | jump _ => .jump
  | jumpIfNot _ _ => .jumpIfNot
  | computedJump _ => .computedJump
  | pushFlow _ => .pushExecutionFlow
  | popFlowIfNot _ => .popExecutionFlowIfNot
  | switch _ _ _ _ => .switchValue
  | assert _ _ _ => .assert
  | skip _ _ => .skip
  | instrumentation _ _ => .instrumentationEvent
  | transact _ _ => .autoRtfmTransact
  | stopTransact _ _ => .autoRtfmStopTransact
  | abortIfNot _ => .autoRtfmAbortIfNot

def isCall : Node ε → Bool
  | finalCall .. => true
  | _ => false

/-- The operands from left to right. A switch has its default last, and a missing
text source is none. -/
def children : Node ε → List ε
  | text source => source.toList
  | struct _ _ fields => fields
  | array _ elements | set _ elements | map _ _ elements => elements
  | fill _ target elements => target :: elements
  | assign _ target assignment | letKind _ target assignment => [target, assignment]
  | persistentLet _ operand | memberOf _ operand | wrapper _ operand | classCast _ _ operand
  | convert _ operand | clearDelegate operand | ret operand | jumpIfNot _ operand
  | computedJump operand
  | popFlowIfNot operand | assert _ _ operand | skip _ operand | abortIfNot operand => [operand]
  | elementOf container position => [container, position]
  | context _ object _ _ member => [object, member]
  | virtualCall _ _ arguments | finalCall _ _ arguments => arguments
  | changeDelegate _ delegate operand => [delegate, operand]
  | callDelegate _ delegate arguments => delegate :: arguments
  | bindDelegate _ delegate object => [delegate, object]
  | switch _ index default_ cases => index :: cases.flatMap (fun c => [c.key, c.term]) ++ [default_]
  | _ => []

end Node

namespace Expr

def opcode (e : Expr) : Opcode := e.node.opcode

def children (e : Expr) : List Expr := e.node.children

def isCall (e : Expr) : Bool := e.node.isCall

end Expr

end Pseudocode
