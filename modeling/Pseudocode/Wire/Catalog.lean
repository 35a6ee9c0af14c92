import Pseudocode.Wire.TagCatalog

/-! Which fields each instruction is stored with, and what is made of them. -/

namespace Pseudocode

namespace Opcode

abbrev fields : Opcode → List Field
  | localVariable | instanceVariable | defaultVariable | localOutVariable
  | classSparseDataVariable =>
    [.required "variable" (.record .pointer)]
  | ret => [.required "return_expression" .expr]
  | jump => [.required "code_offset" (.int .u32)]
  | jumpIfNot => [.required "code_offset" (.int .u32), .required "boolean_expression" .expr]
  | assert => [.required "line_number" (.int .u16), .required "debug_mode" .bool,
      .required "assert_expression" .expr]
  | assign =>
    [.required "value" (.record .pointer), .required "variable" .expr, .required "assignment" .expr]
  | bitFieldConst =>
    [.required "inner_property" (.record .pointer), .required "const_value" (.int .u8)]
  | classContext | context | contextFailSilent =>
    [.required "object_expression" .expr, .defaulted "offset" (.int .u32) 0,
      .optional "r_value_pointer" (.record .pointer), .required "context_expression" .expr]
  | metaCast | dynamicCast | objToInterfaceCast | crossInterfaceCast | interfaceToObjCast =>
    [.required "class_ptr" (.record .objectRef), .required "target" .expr]
  | letBool | letMulticastDelegate | letDelegate | letObj | letWeakObjPtr =>
    [.required "variable" .expr, .required "assignment" .expr]
  | skip => [.required "code_offset" (.int .u32), .required "skip_expression" .expr]
  | virtualFunction | localVirtualFunction =>
    [.required "virtual_function_name" .text, .defaulted "parameters" (.list .expr) []]
  | finalFunction | localFinalFunction | callMath =>
    [.required "stack_node" (.record .objectRef), .defaulted "parameters" (.list .expr) []]
  | intConst => [.required "value" (.int .i32)]
  | floatConst => [.required "value" .narrow]
  | stringConst | nameConst | unicodeStringConst => [.required "value" .text]
  | objectConst => [.required "value" (.record .objectRef)]
  | rotationConst => [.required "value" (.record .rotator)]
  | vectorConst | vector3fConst => [.required "value" (.record .vector)]
  | byteConst | intConstByte => [.required "value" (.int .u8)]
  | textConst => [.optional "source_string" .expr]
  | transformConst => [.required "value" (.record .transform)]
  | structConst =>
    [.required "struct_value" (.record .objectRef), .defaulted "struct_size" (.int .i32) 0,
      .defaulted "properties" (.list .expr) []]
  | setArray => [.required "assigning_property" .expr, .defaulted "elements" (.list .expr) []]
  | propertyConst => [.required "property" (.record .pointer)]
  | int64Const => [.required "value" (.int .i64)]
  | uint64Const => [.required "value" (.int .u64)]
  | doubleConst => [.required "value" .wide]
  | convert => [.required "conversion_type" .conversion, .required "target" .expr]
  | setSet => [.required "set_property" .expr, .defaulted "elements" (.list .expr) []]
  | setMap => [.required "map_property" .expr, .defaulted "elements" (.list .expr) []]
  | setConst | arrayConst =>
    [.required "inner_property" (.record .pointer), .defaulted "elements" (.list .expr) []]
  | mapConst =>
    [.required "key_property" (.record .pointer), .required "value_property" (.record .pointer),
      .defaulted "elements" (.list .expr) []]
  | structMemberContext =>
    [.required "member_property" (.record .pointer), .required "struct_expression" .expr]
  | instanceDelegate => [.required "function_name" .text]
  | pushExecutionFlow => [.required "pushing_address" (.int .u32)]
  | computedJump => [.required "code_offset_expression" .expr]
  | popExecutionFlowIfNot | autoRtfmAbortIfNot => [.required "boolean_expression" .expr]
  | interfaceContext => [.required "interface_value" .expr]
  | skipOffsetConst => [.required "value" (.int .u32)]
  | addMulticastDelegate | removeMulticastDelegate =>
    [.required "delegate" .expr, .required "delegate_to_add" .expr]
  | clearMulticastDelegate => [.required "delegate_to_clear" .expr]
  | bindDelegate =>
    [.required "function_name" .text, .required "delegate" .expr, .required "object_term" .expr]
  | callMulticastDelegate =>
    [.required "stack_node" (.record .objectRef), .required "delegate" .expr,
      .defaulted "parameters" (.list .expr) []]
  | letValueOnPersistentFrame =>
    [.required "destination_property" (.record .pointer), .required "assignment_expression" .expr]
  | softObjectConst | fieldPathConst => [.required "value" .expr]
  | switchValue => [.defaulted "end_goto_offset" (.int .u32) 0, .required "index_term" .expr,
      .required "default_term" .expr, .defaulted "cases" (.list (.record .switchCase)) []]
  | instrumentationEvent => [.required "event_type" (.int .u8), .optional "event_name" .text]
  | arrayGetByRef => [.required "array_variable" .expr, .required "array_index" .expr]
  | autoRtfmTransact =>
    [.required "transaction_id" (.int .i32), .defaulted "code_offset" (.int .u32) 0]
  | autoRtfmStopTransact => [.required "transaction_id" (.int .i32), .defaulted "mode" (.int .u8) 0]
  | nothing | nothingInt32 | endParmValue | endFunctionParms | self | intZero | intOne | trueConst
  | falseConst
  | noObject | noInterface | endStructConst | endArray | endSet | endMap | endSetConst | endMapConst
  | deprecatedOp4A | popExecutionFlow | breakpoint | endOfScript | wireTracepoint | tracepoint
  | endArrayConst => []

def build : (op : Opcode) → Args op.fields → Node Expr
  | localVariable, (p, _) => .var .stackLocal p
  | instanceVariable, (p, _) => .var .member p
  | defaultVariable, (p, _) => .var .classDefault p
  | localOutVariable, (p, _) => .var .outParameter p
  | classSparseDataVariable, (p, _) => .var .sparseData p
  | ret, (e, _) => .ret e
  | jump, (offset, _) => .jump offset
  | jumpIfNot, (offset, e, _) => .jumpIfNot offset e
  | assert, (line, debug, e, _) => .assert line debug e
  | nothing, _ => .atom .nothing
  | nothingInt32, _ => .atom .nothingInt32
  | assign, (value, target, assignment, _) => .assign value target assignment
  | bitFieldConst, (inner, value, _) => .bitField inner value
  | classContext, (object, offset, result, member, _) =>
    .context .ofClass object offset result member
  | metaCast, (c, e, _) => .classCast .ofClass c e
  | letBool, (target, assignment, _) => .letKind .bool target assignment
  | endParmValue, _ => .atom .endParmValue
  | endFunctionParms, _ => .atom .endFunctionParms
  | self, _ => .atom .self
  | skip, (offset, e, _) => .skip offset e
  | context, (object, offset, result, member, _) => .context .object object offset result member
  | contextFailSilent, (object, offset, result, member, _) =>
    .context .failSilent object offset result member
  | virtualFunction, (name, args, _) => .virtualCall .anywhere name args
  | finalFunction, (function, args, _) => .finalCall .anywhere function args
  | intConst, (value, _) => .int32 value
  | floatConst, (value, _) => .float value
  | stringConst, (value, _) => .literal .string value
  | objectConst, (value, _) => .objectConst value
  | nameConst, (value, _) => .literal .name value
  | rotationConst, (value, _) => .rotation value
  | vectorConst, (value, _) => .vector value
  | byteConst, (value, _) => .byte .byte value
  | intZero, _ => .atom .intZero
  | intOne, _ => .atom .intOne
  | trueConst, _ => .atom .trueConst
  | falseConst, _ => .atom .falseConst
  | textConst, (source, _) => .text source
  | noObject, _ => .atom .noObject
  | transformConst, (value, _) => .transform value
  | intConstByte, (value, _) => .byte .int value
  | noInterface, _ => .atom .noInterface
  | dynamicCast, (c, e, _) => .classCast .dynamic c e
  | structConst, (type, size, fields, _) => .struct type size fields
  | endStructConst, _ => .atom .endStructConst
  | setArray, (target, elements, _) => .fill .array target elements
  | endArray, _ => .atom .endArray
  | propertyConst, (p, _) => .propertyConst p
  | unicodeStringConst, (value, _) => .unicodeString value
  | int64Const, (value, _) => .int64 value
  | uint64Const, (value, _) => .uint64 value
  | doubleConst, (value, _) => .double value
  | convert, (conversion, e, _) => .convert conversion e
  | setSet, (target, elements, _) => .fill .set target elements
  | endSet, _ => .atom .endSet
  | setMap, (target, elements, _) => .fill .map target elements
  | endMap, _ => .atom .endMap
  | setConst, (inner, elements, _) => .set inner elements
  | endSetConst, _ => .atom .endSetConst
  | mapConst, (key, value, elements, _) => .map key value elements
  | endMapConst, _ => .atom .endMapConst
  | vector3fConst, (value, _) => .vector3f value
  | structMemberContext, (member, e, _) => .memberOf member e
  | letMulticastDelegate, (target, assignment, _) => .letKind .multicastDelegate target assignment
  | letDelegate, (target, assignment, _) => .letKind .delegate target assignment
  | localVirtualFunction, (name, args, _) => .virtualCall .onSelf name args
  | localFinalFunction, (function, args, _) => .finalCall .onSelf function args
  | deprecatedOp4A, _ => .atom .deprecatedOp4A
  | instanceDelegate, (name, _) => .delegateName name
  | pushExecutionFlow, (offset, _) => .pushFlow offset
  | popExecutionFlow, _ => .atom .popExecutionFlow
  | computedJump, (e, _) => .computedJump e
  | popExecutionFlowIfNot, (e, _) => .popFlowIfNot e
  | breakpoint, _ => .atom .breakpoint
  | interfaceContext, (e, _) => .wrapper .interface e
  | objToInterfaceCast, (c, e, _) => .classCast .toInterface c e
  | endOfScript, _ => .atom .endOfScript
  | crossInterfaceCast, (c, e, _) => .classCast .acrossInterfaces c e
  | interfaceToObjCast, (c, e, _) => .classCast .fromInterface c e
  | wireTracepoint, _ => .atom .wireTracepoint
  | skipOffsetConst, (value, _) => .skipOffset value
  | addMulticastDelegate, (delegate, e, _) => .changeDelegate .add delegate e
  | clearMulticastDelegate, (delegate, _) => .clearDelegate delegate
  | tracepoint, _ => .atom .tracepoint
  | letObj, (target, assignment, _) => .letKind .object target assignment
  | letWeakObjPtr, (target, assignment, _) => .letKind .weakObject target assignment
  | bindDelegate, (name, delegate, object, _) => .bindDelegate name delegate object
  | removeMulticastDelegate, (delegate, e, _) => .changeDelegate .remove delegate e
  | callMulticastDelegate, (signature, delegate, args, _) => .callDelegate signature delegate args
  | letValueOnPersistentFrame, (destination, e, _) => .persistentLet destination e
  | arrayConst, (inner, elements, _) => .array inner elements
  | endArrayConst, _ => .atom .endArrayConst
  | softObjectConst, (e, _) => .wrapper .softObject e
  | callMath, (function, args, _) => .finalCall .math function args
  | switchValue, (endOffset, index, default_, cases, _) => .switch endOffset index default_ cases
  | instrumentationEvent, (type, name, _) => .instrumentation type name
  | arrayGetByRef, (container, position, _) => .elementOf container position
  | fieldPathConst, (e, _) => .wrapper .fieldPath e
  | autoRtfmTransact, (transaction, offset, _) => .transact transaction offset
  | autoRtfmStopTransact, (transaction, mode, _) => .stopTransact transaction mode
  | autoRtfmAbortIfNot, (e, _) => .abortIfNot e

end Opcode

end Pseudocode
