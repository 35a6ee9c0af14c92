import Pseudocode.Wire.DecodeLeaf

/-! Decoding a stored value from the draft of its text. The parts of a text are
looked at in order, and the first thing wrong with them is the error. -/

namespace Pseudocode

namespace Slots

def fill (name : String) (read : (f : Field) → Decoded f.Carrier) :
    (fs : List Field) → Slots fs → Decoded (Option (Slots fs))
  | [], _ => .ok none
  | f :: fs, (slot, slots) =>
    if f.name = name then
      match slot with
      | some _ => failWith (.duplicateField name)
      | none => do return some (some (← read f), slots)
    else do return (← fill name read fs slots).map (slot, ·)

def finish : (fs : List Field) → Slots fs → Decoded (Args fs)
  | [], _ => .ok ()
  | f :: fs, (slot, slots) =>
    match slot.or f.absent with
    | some v => do return (v, ← finish fs slots)
    | none => failWith (.missingField f.name)

end Slots

def elementsText (n : Nat) : String := toString n ++ if n = 1 then " element" else " elements"

/-- Closes a list all of whose expected items are read. `total` counts the items
that it has, `count` those that were expected. -/
def closeList (mode : ReadMode) (total count : Nat) (ending : ListEnd) : Decoded Unit :=
  if count < total then
    match mode with
    | .direct => .error (.fault .trailingText)
    | .buffered => failWith (.invalidLength total (elementsText count ++ " in sequence"))
  else checkFault ending.closingFault?

def absentItems (expected : String) : (index : Nat) → (fs : List Field) → Decoded (Args fs)
  | _, [] => .ok ()
  | index, f :: fs =>
    match f.absent with
    | some v => do return (v, ← absentItems expected (index + 1) fs)
    | none => failWith (.invalidLength index expected)

def fieldsText (title : String) (fs : List Field) : String :=
  title ++ " with " ++ elementsText fs.length

/-- Reads through the members of a tagged value: the tag as soon as it comes,
everything else to its end. -/
def findTag {α : Type} (name : String) (decode : Draft → Decoded α) (mode : ReadMode)
    (found : Option α) : List (Quotation × Draft) → Decoded (Option α)
  | [] => .ok found
  | (key, d) :: rest => do
    if (← key.read) = name then
      match found with
      | some _ => failWith (.duplicateField name)
      | none => findTag name decode mode (some (← decode d)) rest
    else
      mode.buffer d
      findTag name decode mode found rest

def requireTag {α : Type} (name : String) (decode : Draft → Decoded α) (mode : ReadMode)
    (members : List (Quotation × Draft)) (ending : ObjectEnd) : Decoded α := do
  let found ← findTag name decode mode none members
  checkFault ending.fault?
  match found with
  | some a => return a
  | none => failWith (.missingField name)

def checkRest (mode : ReadMode) : List (Quotation × Draft) → Decoded Unit
  | [] => .ok ()
  | (key, d) :: rest => do
    let name ← key.read
    if name = "type" || name = "value" then failWith (.duplicateField name)
    else
      mode.pass d
      checkRest mode rest

/-- Reads on for the tag behind a value that is already read to its end. -/
def seekTag (mode : ReadMode) (ending : ObjectEnd) (read : (t : ValueTag) → Decoded PropertyValue) :
    List (Quotation × Draft) → Decoded PropertyValue
  | [] => do
    checkFault ending.fault?
    failWith (.missingField "type")
  | (key, d) :: rest => do
    let name ← key.read
    if name = "type" then
      let v ← read (← decodeName ValueTag.all ValueTag.tag mode d)
      checkRest mode rest
      checkFault ending.fault?
      return v
    else if name = "value" then failWith (.duplicateField name)
    else
      mode.pass d
      seekTag mode ending read rest

def readField (f : Field) (d : Draft) (read : (s : Shape) → Decoded s.Carrier) :
    Decoded f.Carrier :=
  match f, d with
  | ⟨_, _, true, _⟩, .null => .ok none
  | ⟨_, s, true, _⟩, _ => do return some (← read s)
  | ⟨_, s, false, _⟩, _ => read s

mutual

def decode (s : Shape) (mode : ReadMode) (d : Draft) : Decoded s.Carrier :=
  match s, d with
  | .int w, d => decodeInt w d
  | .narrow, d => decodeNarrow d
  | .wide, d => decodeWide d
  | .bool, d => decodeBool d
  | .text, d => decodeText d
  | .structuralKind, d => decodeName StructuralKind.all StructuralKind.tag mode d
  | .conversion, d => decodeName Conversion.all Conversion.tag mode d
  | .list item, .list tooDeep items ending => do
    checkDepth tooDeep
    let vs ← decodeItems item mode items
    checkFault ending.fault?
    return vs
  | .list _, d => d.mismatch "a sequence"
  | .pair first second, .list tooDeep items ending => do
    checkDepth tooDeep
    let (a, b, _) ← decodeElements "a tuple of size 2" mode ending 0
      [.required "" first, .required "" second] items
    return (a, b)
  | .pair _ _, d => d.mismatch "a tuple of size 2"
  | .record r, .object tooDeep members ending => do
    checkDepth tooDeep
    let slots ← decodeMembers r.fields mode (Slots.empty r.fields) members
    checkFault ending.fault?
    return r.build (← Slots.finish r.fields slots)
  | .record r, .list tooDeep items ending => do
    checkDepth tooDeep
    return r.build
      (← decodeElements (fieldsText ("struct " ++ r.title) r.fields) mode ending 0 r.fields items)
  | .record r, d => d.mismatch ("struct " ++ r.title)
  | .propertyKind, .object tooDeep members ending => do
    checkDepth tooDeep
    let t ← requireTag "type" (decodeTag KindTag.all KindTag.tag mode) mode members ending
    let slots ← decodeMembers t.fields .buffered (Slots.empty t.fields) members
    return t.build (← Slots.finish t.fields slots)
  | .propertyKind, .list tooDeep items ending => do
    checkDepth tooDeep
    match items with
    | [] =>
      checkFault ending.fault?
      failWith (.missingField "type")
    | d :: rest =>
      let t ← decodeTag KindTag.all KindTag.tag mode d
      mode.buffer (.list false rest ending)
      return t.build
        (← decodeElements (fieldsText t.title t.fields) .buffered ending 0 t.fields rest)
  | .propertyKind, d => d.mismatch "internally tagged enum PropertyKind"
  | .structValue, .object tooDeep members ending => do
    checkDepth tooDeep
    let t ← requireTag "struct" (decodeTag StructTag.all StructTag.tag mode) mode members ending
    let slots ← decodeMembers t.fields .buffered (Slots.empty t.fields) members
    return t.build (← Slots.finish t.fields slots)
  | .structValue, .list tooDeep items ending => do
    checkDepth tooDeep
    match items with
    | [] =>
      checkFault ending.fault?
      failWith (.missingField "struct")
    | d :: rest =>
      let t ← decodeTag StructTag.all StructTag.tag mode d
      mode.buffer (.list false rest ending)
      return t.build
        (← decodeElements (fieldsText t.title t.fields) .buffered ending 0 t.fields rest)
  | .structValue, d => d.mismatch "internally tagged enum StructValue"
  | .propertyValue, .object tooDeep members ending => do
    checkDepth tooDeep
    decodeTagged mode ending none members
  | .propertyValue, .list tooDeep items ending => do
    checkDepth tooDeep
    decodeTaggedItems mode ending none items
  | .propertyValue, d => d.mismatch "adjacently tagged enum PropertyValue"
  | .expr, .object tooDeep members ending => do
    checkDepth tooDeep
    let index ← findTag "statement_index" (decodeInt .u32) mode none members
    checkFault ending.fault?
    let op ← requireTag "inst" (decodeTag Opcode.all Opcode.tag .buffered) .buffered members ending
    let slots ← decodeMembers op.fields .buffered (Slots.empty op.fields) members
    return ⟨index.getD 0, op.build (← Slots.finish op.fields slots)⟩
  | .expr, d => d.mismatch "struct KismetExpression"

def decodeItems (item : Shape) (mode : ReadMode) : List Draft → Decoded (List item.Carrier)
  | [] => .ok []
  | d :: rest => do return (← decode item mode d) :: (← decodeItems item mode rest)

/-- Decodes the items of a list as the values of fields in their order, and closes
the list. `index` fields are done. -/
def decodeElements (expected : String) (mode : ReadMode) (ending : ListEnd) (index : Nat)
    (fs : List Field) (items : List Draft) : Decoded (Args fs) :=
  match fs, items with
  | [], rest => do
    closeList mode (index + rest.length) index ending
    return ()
  | fs, [] => do
    checkFault ending.fault?
    absentItems expected index fs
  | f :: fs, d :: rest => do
    let v ← readField f d fun s => decode s mode d
    return (v, ← decodeElements expected mode ending (index + 1) fs rest)

def decodeMembers (fs : List Field) (mode : ReadMode) (slots : Slots fs) :
    List (Quotation × Draft) → Decoded (Slots fs)
  | [] => .ok slots
  | (key, d) :: rest => do
    match ← Slots.fill (← key.read) (fun f => readField f d fun s => decode s mode d) fs slots with
    | some slots => decodeMembers fs mode slots rest
    | none =>
      mode.pass d
      decodeMembers fs mode slots rest

/-- Decodes a property value from the members of an object. Its tag may come
before the value, which then is decoded as it is read, or behind it. -/
def decodeTagged (mode : ReadMode) (ending : ObjectEnd) (tag : Option ValueTag) :
    List (Quotation × Draft) → Decoded PropertyValue
  | [] => do
    checkFault ending.fault?
    match tag with
    | none => failWith (.missingField "type")
    | some t =>
      match t.field.absent with
      | some v => return t.build v
      | none => failWith (.missingField "value")
  | (key, d) :: rest => do
    let name ← key.read
    if name = "type" then
      match tag with
      | some _ => failWith (.duplicateField name)
      | none => decodeTagged mode ending (some (← decodeName ValueTag.all ValueTag.tag mode d)) rest
    else if name = "value" then
      match tag with
      | some t =>
        let v ← readField t.field d fun s => decode s mode d
        checkRest mode rest
        checkFault ending.fault?
        return t.build v
      | none =>
        mode.buffer d
        seekTag mode ending (fun t =>
          return t.build (← readField t.field d fun s => decode s .buffered d)) rest
    else
      mode.pass d
      decodeTagged mode ending tag rest

/-- Decodes a property value from a list of its tag and its value. In front of a
list the tag is read like the tags of other tagged values, and an object cannot
stand for it. -/
def decodeTaggedItems (mode : ReadMode) (ending : ListEnd) (tag : Option ValueTag) :
    List Draft → Decoded PropertyValue
  | [] => do
    checkFault ending.fault?
    failWith (.invalidLength (if tag.isSome then 1 else 0) "adjacently tagged enum PropertyValue")
  | d :: rest => do
    match tag with
    | none =>
      decodeTaggedItems mode ending (some (← decodeTag ValueTag.all ValueTag.tag mode d)) rest
    | some t =>
      let v ← readField t.field d fun s => decode s mode d
      closeList mode (2 + rest.length) 2 ending
      return t.build v

end

def decodeDump (d : Draft) : Decoded ScriptDump :=
  match d with
  | .object tooDeep members ending => do
    checkDepth tooDeep
    match members with
    | [] => missingKey ending
    | (key, d) :: rest =>
      let dump ← match ← chooseName DumpTag.all DumpTag.tag (← key.read) with
        | .class_ => ScriptDump.class_ <$> decode (.record .class_) .direct d
        | .function => ScriptDump.function <$> decode (.record .function) .direct d
      checkSingle rest ending
      return dump
  | .string q => do
    let _ ← chooseName DumpTag.all DumpTag.tag (← q.read)
    failWith (.invalidType .unitVariant "newtype variant")
  | .gap g => .error (.fault g.glanceFault)
  | _ => .error (.fault .expectedValue)

def decodeAll {α : Type} (decode : Draft → Decoded α) (text : String) : Decoded α := do
  let document := Document.ofText text
  let v ← decode document.value
  if document.hasTrailing then .error (.fault .trailingText) else return v

def Shape.ofJson (s : Shape) (text : String) : Decoded s.Carrier :=
  decodeAll (decode s .direct) text

def ScriptDump.ofJson (text : String) : Decoded ScriptDump := decodeAll decodeDump text

end Pseudocode
