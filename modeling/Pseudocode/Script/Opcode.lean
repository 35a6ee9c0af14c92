/-! The instructions of the script machine: their bytes and their names. -/

namespace Pseudocode

/-- The instructions in the order of their bytes, which is the order in which a
stored dump may number them. -/
inductive Opcode where
  | localVariable | instanceVariable | defaultVariable | ret | jump | jumpIfNot | assert | nothing
  | nothingInt32 | assign | bitFieldConst | classContext | metaCast | letBool | endParmValue
  | endFunctionParms | self | skip | context | contextFailSilent | virtualFunction | finalFunction
  | intConst | floatConst | stringConst | objectConst | nameConst | rotationConst | vectorConst
  | byteConst
  | intZero | intOne | trueConst | falseConst | textConst | noObject | transformConst | intConstByte
  | noInterface | dynamicCast | structConst | endStructConst | setArray | endArray | propertyConst
  | unicodeStringConst | int64Const | uint64Const | doubleConst | convert | setSet | endSet | setMap
  | endMap | setConst | endSetConst | mapConst | endMapConst | vector3fConst | structMemberContext
  | letMulticastDelegate | letDelegate | localVirtualFunction | localFinalFunction
  | localOutVariable
  | deprecatedOp4A | instanceDelegate | pushExecutionFlow | popExecutionFlow | computedJump
  | popExecutionFlowIfNot | breakpoint | interfaceContext | objToInterfaceCast | endOfScript
  | crossInterfaceCast | interfaceToObjCast | wireTracepoint | skipOffsetConst
  | addMulticastDelegate
  | clearMulticastDelegate | tracepoint | letObj | letWeakObjPtr | bindDelegate
  | removeMulticastDelegate
  | callMulticastDelegate | letValueOnPersistentFrame | arrayConst | endArrayConst | softObjectConst
  | callMath | switchValue | instrumentationEvent | arrayGetByRef | classSparseDataVariable
  | fieldPathConst | autoRtfmTransact | autoRtfmStopTransact | autoRtfmAbortIfNot
  deriving DecidableEq, Repr, Inhabited

namespace Opcode

def all : List Opcode := [
  .localVariable, .instanceVariable, .defaultVariable, .ret, .jump, .jumpIfNot, .assert, .nothing,
  .nothingInt32, .assign, .bitFieldConst, .classContext, .metaCast, .letBool, .endParmValue,
  .endFunctionParms, .self, .skip, .context, .contextFailSilent, .virtualFunction, .finalFunction,
  .intConst, .floatConst, .stringConst, .objectConst, .nameConst, .rotationConst, .vectorConst,
  .byteConst, .intZero, .intOne, .trueConst, .falseConst, .textConst, .noObject, .transformConst,
  .intConstByte, .noInterface, .dynamicCast, .structConst, .endStructConst, .setArray, .endArray,
  .propertyConst, .unicodeStringConst, .int64Const, .uint64Const, .doubleConst, .convert, .setSet,
  .endSet, .setMap, .endMap, .setConst, .endSetConst, .mapConst, .endMapConst, .vector3fConst,
  .structMemberContext, .letMulticastDelegate, .letDelegate, .localVirtualFunction,
  .localFinalFunction, .localOutVariable, .deprecatedOp4A, .instanceDelegate, .pushExecutionFlow,
  .popExecutionFlow, .computedJump, .popExecutionFlowIfNot, .breakpoint, .interfaceContext,
  .objToInterfaceCast, .endOfScript, .crossInterfaceCast, .interfaceToObjCast, .wireTracepoint,
  .skipOffsetConst, .addMulticastDelegate, .clearMulticastDelegate, .tracepoint, .letObj,
  .letWeakObjPtr, .bindDelegate, .removeMulticastDelegate, .callMulticastDelegate,
  .letValueOnPersistentFrame, .arrayConst, .endArrayConst, .softObjectConst, .callMath,
  .switchValue, .instrumentationEvent, .arrayGetByRef, .classSparseDataVariable, .fieldPathConst,
  .autoRtfmTransact, .autoRtfmStopTransact, .autoRtfmAbortIfNot]

/-- The full name of an instruction, which also stands in for those without a
rendering, and its byte. -/
def entry : Opcode → String × UInt8
  | .localVariable => ("EX_LocalVariable", 0x00)
  | .instanceVariable => ("EX_InstanceVariable", 0x01)
  | .defaultVariable => ("EX_DefaultVariable", 0x02)
  | .ret => ("EX_Return", 0x04)
  | .jump => ("EX_Jump", 0x06)
  | .jumpIfNot => ("EX_JumpIfNot", 0x07)
  | .assert => ("EX_Assert", 0x09)
  | .nothing => ("EX_Nothing", 0x0b)
  | .nothingInt32 => ("EX_NothingInt32", 0x0c)
  | .assign => ("EX_Let", 0x0f)
  | .bitFieldConst => ("EX_BitFieldConst", 0x11)
  | .classContext => ("EX_ClassContext", 0x12)
  | .metaCast => ("EX_MetaCast", 0x13)
  | .letBool => ("EX_LetBool", 0x14)
  | .endParmValue => ("EX_EndParmValue", 0x15)
  | .endFunctionParms => ("EX_EndFunctionParms", 0x16)
  | .self => ("EX_Self", 0x17)
  | .skip => ("EX_Skip", 0x18)
  | .context => ("EX_Context", 0x19)
  | .contextFailSilent => ("EX_Context_FailSilent", 0x1a)
  | .virtualFunction => ("EX_VirtualFunction", 0x1b)
  | .finalFunction => ("EX_FinalFunction", 0x1c)
  | .intConst => ("EX_IntConst", 0x1d)
  | .floatConst => ("EX_FloatConst", 0x1e)
  | .stringConst => ("EX_StringConst", 0x1f)
  | .objectConst => ("EX_ObjectConst", 0x20)
  | .nameConst => ("EX_NameConst", 0x21)
  | .rotationConst => ("EX_RotationConst", 0x22)
  | .vectorConst => ("EX_VectorConst", 0x23)
  | .byteConst => ("EX_ByteConst", 0x24)
  | .intZero => ("EX_IntZero", 0x25)
  | .intOne => ("EX_IntOne", 0x26)
  | .trueConst => ("EX_True", 0x27)
  | .falseConst => ("EX_False", 0x28)
  | .textConst => ("EX_TextConst", 0x29)
  | .noObject => ("EX_NoObject", 0x2a)
  | .transformConst => ("EX_TransformConst", 0x2b)
  | .intConstByte => ("EX_IntConstByte", 0x2c)
  | .noInterface => ("EX_NoInterface", 0x2d)
  | .dynamicCast => ("EX_DynamicCast", 0x2e)
  | .structConst => ("EX_StructConst", 0x2f)
  | .endStructConst => ("EX_EndStructConst", 0x30)
  | .setArray => ("EX_SetArray", 0x31)
  | .endArray => ("EX_EndArray", 0x32)
  | .propertyConst => ("EX_PropertyConst", 0x33)
  | .unicodeStringConst => ("EX_UnicodeStringConst", 0x34)
  | .int64Const => ("EX_Int64Const", 0x35)
  | .uint64Const => ("EX_UInt64Const", 0x36)
  | .doubleConst => ("EX_DoubleConst", 0x37)
  | .convert => ("EX_Cast", 0x38)
  | .setSet => ("EX_SetSet", 0x39)
  | .endSet => ("EX_EndSet", 0x3a)
  | .setMap => ("EX_SetMap", 0x3b)
  | .endMap => ("EX_EndMap", 0x3c)
  | .setConst => ("EX_SetConst", 0x3d)
  | .endSetConst => ("EX_EndSetConst", 0x3e)
  | .mapConst => ("EX_MapConst", 0x3f)
  | .endMapConst => ("EX_EndMapConst", 0x40)
  | .vector3fConst => ("EX_Vector3fConst", 0x41)
  | .structMemberContext => ("EX_StructMemberContext", 0x42)
  | .letMulticastDelegate => ("EX_LetMulticastDelegate", 0x43)
  | .letDelegate => ("EX_LetDelegate", 0x44)
  | .localVirtualFunction => ("EX_LocalVirtualFunction", 0x45)
  | .localFinalFunction => ("EX_LocalFinalFunction", 0x46)
  | .localOutVariable => ("EX_LocalOutVariable", 0x48)
  | .deprecatedOp4A => ("EX_DeprecatedOp4A", 0x4a)
  | .instanceDelegate => ("EX_InstanceDelegate", 0x4b)
  | .pushExecutionFlow => ("EX_PushExecutionFlow", 0x4c)
  | .popExecutionFlow => ("EX_PopExecutionFlow", 0x4d)
  | .computedJump => ("EX_ComputedJump", 0x4e)
  | .popExecutionFlowIfNot => ("EX_PopExecutionFlowIfNot", 0x4f)
  | .breakpoint => ("EX_Breakpoint", 0x50)
  | .interfaceContext => ("EX_InterfaceContext", 0x51)
  | .objToInterfaceCast => ("EX_ObjToInterfaceCast", 0x52)
  | .endOfScript => ("EX_EndOfScript", 0x53)
  | .crossInterfaceCast => ("EX_CrossInterfaceCast", 0x54)
  | .interfaceToObjCast => ("EX_InterfaceToObjCast", 0x55)
  | .wireTracepoint => ("EX_WireTracepoint", 0x5a)
  | .skipOffsetConst => ("EX_SkipOffsetConst", 0x5b)
  | .addMulticastDelegate => ("EX_AddMulticastDelegate", 0x5c)
  | .clearMulticastDelegate => ("EX_ClearMulticastDelegate", 0x5d)
  | .tracepoint => ("EX_Tracepoint", 0x5e)
  | .letObj => ("EX_LetObj", 0x5f)
  | .letWeakObjPtr => ("EX_LetWeakObjPtr", 0x60)
  | .bindDelegate => ("EX_BindDelegate", 0x61)
  | .removeMulticastDelegate => ("EX_RemoveMulticastDelegate", 0x62)
  | .callMulticastDelegate => ("EX_CallMulticastDelegate", 0x63)
  | .letValueOnPersistentFrame => ("EX_LetValueOnPersistentFrame", 0x64)
  | .arrayConst => ("EX_ArrayConst", 0x65)
  | .endArrayConst => ("EX_EndArrayConst", 0x66)
  | .softObjectConst => ("EX_SoftObjectConst", 0x67)
  | .callMath => ("EX_CallMath", 0x68)
  | .switchValue => ("EX_SwitchValue", 0x69)
  | .instrumentationEvent => ("EX_InstrumentationEvent", 0x6a)
  | .arrayGetByRef => ("EX_ArrayGetByRef", 0x6b)
  | .classSparseDataVariable => ("EX_ClassSparseDataVariable", 0x6c)
  | .fieldPathConst => ("EX_FieldPathConst", 0x6d)
  | .autoRtfmTransact => ("EX_AutoRtfmTransact", 0x70)
  | .autoRtfmStopTransact => ("EX_AutoRtfmStopTransact", 0x71)
  | .autoRtfmAbortIfNot => ("EX_AutoRtfmAbortIfNot", 0x72)

def name (op : Opcode) : String := op.entry.1

def byte (op : Opcode) : UInt8 := op.entry.2

def ofByte? (b : UInt8) : Option Opcode := all.find? (·.byte = b)

/-- The name under which an instruction is stored. -/
def tag : Opcode → String
  | .localVariable => "LocalVariable"
  | .instanceVariable => "InstanceVariable"
  | .defaultVariable => "DefaultVariable"
  | .ret => "Return"
  | .jump => "Jump"
  | .jumpIfNot => "JumpIfNot"
  | .assert => "Assert"
  | .nothing => "Nothing"
  | .nothingInt32 => "NothingInt32"
  | .assign => "Let"
  | .bitFieldConst => "BitFieldConst"
  | .classContext => "ClassContext"
  | .metaCast => "MetaCast"
  | .letBool => "LetBool"
  | .endParmValue => "EndParmValue"
  | .endFunctionParms => "EndFunctionParms"
  | .self => "Self"
  | .skip => "Skip"
  | .context => "Context"
  | .contextFailSilent => "Context_FailSilent"
  | .virtualFunction => "VirtualFunction"
  | .finalFunction => "FinalFunction"
  | .intConst => "IntConst"
  | .floatConst => "FloatConst"
  | .stringConst => "StringConst"
  | .objectConst => "ObjectConst"
  | .nameConst => "NameConst"
  | .rotationConst => "RotationConst"
  | .vectorConst => "VectorConst"
  | .byteConst => "ByteConst"
  | .intZero => "IntZero"
  | .intOne => "IntOne"
  | .trueConst => "True"
  | .falseConst => "False"
  | .textConst => "TextConst"
  | .noObject => "NoObject"
  | .transformConst => "TransformConst"
  | .intConstByte => "IntConstByte"
  | .noInterface => "NoInterface"
  | .dynamicCast => "DynamicCast"
  | .structConst => "StructConst"
  | .endStructConst => "EndStructConst"
  | .setArray => "SetArray"
  | .endArray => "EndArray"
  | .propertyConst => "PropertyConst"
  | .unicodeStringConst => "UnicodeStringConst"
  | .int64Const => "Int64Const"
  | .uint64Const => "UInt64Const"
  | .doubleConst => "DoubleConst"
  | .convert => "Cast"
  | .setSet => "SetSet"
  | .endSet => "EndSet"
  | .setMap => "SetMap"
  | .endMap => "EndMap"
  | .setConst => "SetConst"
  | .endSetConst => "EndSetConst"
  | .mapConst => "MapConst"
  | .endMapConst => "EndMapConst"
  | .vector3fConst => "Vector3fConst"
  | .structMemberContext => "StructMemberContext"
  | .letMulticastDelegate => "LetMulticastDelegate"
  | .letDelegate => "LetDelegate"
  | .localVirtualFunction => "LocalVirtualFunction"
  | .localFinalFunction => "LocalFinalFunction"
  | .localOutVariable => "LocalOutVariable"
  | .deprecatedOp4A => "DeprecatedOp4A"
  | .instanceDelegate => "InstanceDelegate"
  | .pushExecutionFlow => "PushExecutionFlow"
  | .popExecutionFlow => "PopExecutionFlow"
  | .computedJump => "ComputedJump"
  | .popExecutionFlowIfNot => "PopExecutionFlowIfNot"
  | .breakpoint => "Breakpoint"
  | .interfaceContext => "InterfaceContext"
  | .objToInterfaceCast => "ObjToInterfaceCast"
  | .endOfScript => "EndOfScript"
  | .crossInterfaceCast => "CrossInterfaceCast"
  | .interfaceToObjCast => "InterfaceToObjCast"
  | .wireTracepoint => "WireTracepoint"
  | .skipOffsetConst => "SkipOffsetConst"
  | .addMulticastDelegate => "AddMulticastDelegate"
  | .clearMulticastDelegate => "ClearMulticastDelegate"
  | .tracepoint => "Tracepoint"
  | .letObj => "LetObj"
  | .letWeakObjPtr => "LetWeakObjPtr"
  | .bindDelegate => "BindDelegate"
  | .removeMulticastDelegate => "RemoveMulticastDelegate"
  | .callMulticastDelegate => "CallMulticastDelegate"
  | .letValueOnPersistentFrame => "LetValueOnPersistentFrame"
  | .arrayConst => "ArrayConst"
  | .endArrayConst => "EndArrayConst"
  | .softObjectConst => "SoftObjectConst"
  | .callMath => "CallMath"
  | .switchValue => "SwitchValue"
  | .instrumentationEvent => "InstrumentationEvent"
  | .arrayGetByRef => "ArrayGetByRef"
  | .classSparseDataVariable => "ClassSparseDataVariable"
  | .fieldPathConst => "FieldPathConst"
  | .autoRtfmTransact => "AutoRtfmTransact"
  | .autoRtfmStopTransact => "AutoRtfmStopTransact"
  | .autoRtfmAbortIfNot => "AutoRtfmAbortIfNot"

end Opcode

end Pseudocode
