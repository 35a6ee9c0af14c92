import Pseudocode.Script.Property

/-! How values are written: plainly inside other texts, and as literals in
declarations. -/

namespace Pseudocode

/-- A text between double quotes. Nothing in it is escaped. -/
def inQuotes (s : String) : String := "\"" ++ s ++ "\""

def constructorText (name : String) (arguments : List String) : String :=
  name ++ "(" ++ ", ".intercalate arguments ++ ")"

def Vector.text (v : Vector) : String :=
  constructorText "FVector" [v.x.plainText, v.y.plainText, v.z.plainText]

def Vector2D.text (v : Vector2D) : String :=
  constructorText "FVector2D" [v.x.plainText, v.y.plainText]

def Rotator.text (r : Rotator) : String :=
  constructorText "FRotator" [r.pitch.plainText, r.yaw.plainText, r.roll.plainText]

def Quat.text (q : Quat) : String :=
  constructorText "FQuat" [q.x.plainText, q.y.plainText, q.z.plainText, q.w.plainText]

def Transform.text (t : Transform) : String :=
  constructorText "FTransform" [t.rotation.text, t.location.text, t.scale3D.text]

def tagContainerText : List String → String
  | [] => "[]"
  | [tag] => inQuotes tag
  | tags => "[\n" ++ ",\n".intercalate (tags.map fun tag => "\t\t" ++ inQuotes tag) ++ "\n\t]"

mutual

def PropertyValue.displayText : PropertyValue → String
  | .bool value => if value then "true" else "false"
  | .int value => toString value.toInt
  | .uint value => toString value.toNat
  | .float value => value.plainText
  | .text _ value => value
  | .object path => path.getD "None"
  | .struct value => value.text
  | .array items => "[" ++ ", ".intercalate (displayItems items) ++ "]"
  | .map entries => "\x7b" ++ ", ".intercalate (displayEntries entries) ++ "\x7d"

def displayItems : List PropertyValue → List String
  | [] => []
  | v :: rest => v.displayText :: displayItems rest

def displayEntries : List (PropertyValue × PropertyValue) → List String
  | [] => []
  | (key, value) :: rest => (key.displayText ++ ": " ++ value.displayText) :: displayEntries rest

/-- The form of a struct. Boxes show their upper corner first. -/
def StructValue.text : StructValue → String
  | .vector v => v.text
  | .vector2D v => v.text
  | .rotator r => r.text
  | .quat q => q.text
  | .guid a b c d =>
    constructorText "FGuid" [toString a.toNat, toString b.toNat, toString c.toNat, toString d.toNat]
  | .color r g b a =>
    constructorText "FColor" [toString r.toNat, toString g.toNat, toString b.toNat,
      toString a.toNat]
  | .linearColor r g b a =>
    constructorText "FLinearColor" [r.plainText, g.plainText, b.plainText, a.plainText]
  | .softObjectPath assetPathName => constructorText "FSoftObjectPath" [assetPathName]
  | .uniqueNetId id => constructorText "FUniqueNetIdRepl" [id.getD ""]
  | .navAgentSelector packedBits => constructorText "FNavAgentSelector" [toString packedBits.toNat]
  | .box min max => constructorText "FBox" [max.text, min.text]
  | .box2D min max => constructorText "FBox2D" [max.text, min.text]
  | .intVector x y z =>
    constructorText "FVector" [toString x.toInt, toString y.toInt, toString z.toInt]
  | .floatVector x y z => constructorText "FVector" [x.plainText, y.plainText, z.plainText]
  | .floatVector2D x y => constructorText "FVector2D" [x.plainText, y.plainText]
  | .dateTime ticks => constructorText "FDateTime" [toString ticks.toInt]
  | .bag [] => "[]"
  | .bag (tag :: tags) => "[\n" ++ ",\n".intercalate (bagLines (tag :: tags)) ++ "\n\t]"
  | .tagContainer tags => tagContainerText tags
  | .raw text => text.getD "Issue here"

def bagLines : List PropertyTag → List String
  | [] => []
  | ⟨name, value⟩ :: rest =>
    ("\t\t\x7b " ++ inQuotes name ++ ": " ++ bagField value ++ " \x7d") :: bagLines rest

/-- A value in a bag. A bag in a bag is spread out once; whatever lies deeper is
quoted as it is. -/
def bagField : Option PropertyValue → String
  | none => "\x7b\x7d"
  | some (.struct (.bag [])) => "\x7b\x7d"
  | some (.struct (.bag (tag :: tags))) =>
    "\x7b " ++ ", ".intercalate (nestedFields (tag :: tags)) ++ " \x7d"
  | some value => inQuotes value.displayText

def nestedFields : List PropertyTag → List String
  | [] => []
  | ⟨name, value⟩ :: rest => (inQuotes name ++ ": " ++ nestedField value) :: nestedFields rest

def nestedField : Option PropertyValue → String
  | none => inQuotes ""
  | some value => inQuotes value.displayText

end

def bagText (properties : List PropertyTag) : String := (StructValue.bag properties).text

mutual

def PropertyValue.literal : PropertyValue → String
  | .text .enumeration value => value
  | .text _ value => inQuotes value
  | .object (some path) => constructorText "FindObject" [inQuotes path]
  | .object none => "nullptr"
  | .array [] => "TArray \x7b  \x7d"
  | .array (item :: items) =>
    "TArray \x7b " ++ ", ".intercalate (literalItems (item :: items)) ++ " \x7d"
  | .map [] => "TMap \x7b  \x7d"
  | .map (entry :: entries) =>
    "TMap \x7b " ++ ", ".intercalate (literalEntries (entry :: entries)) ++ " \x7d"
  | value => value.displayText

def literalItems : List PropertyValue → List String
  | [] => []
  | v :: rest => v.literal :: literalItems rest

def literalEntries : List (PropertyValue × PropertyValue) → List String
  | [] => []
  | (key, value) :: rest => (key.literal ++ ": " ++ value.literal) :: literalEntries rest

end

/-- Closer to the integer below it than this, a number is shown as an integer. It
is the stored number nearest to `10 ^ -10`. -/
def wholeTolerance : Magnitude := .finite 0x1b7cdfd9d7bdbb (-86)

def Magnitude.exceeds (a b : Nat) : Magnitude → Bool
  | .finite significand exponent =>
    a * Nat.pow 2 (-exponent).toNat < significand * Nat.pow 2 exponent.toNat * b
  | .infinite => true
  | .nan => false

/-- The integer next to a finite number on the side of zero, if the number is
almost the integer below it. Below means towards negative infinity, also for
negative numbers. -/
def Signed.almostWhole? (x : Signed) : Option Int :=
  match x.magnitude with
  | .finite significand exponent =>
    let num := significand * Nat.pow 2 exponent.toNat
    let den := Nat.pow 2 (-exponent).toNat
    let rest := num % den
    let above := if x.negative then (den - rest) % den else rest
    if wholeTolerance.exceeds above den then
      some (if x.negative then -((num / den : Nat) : Int) else (num / den : Nat))
    else none
  | _ => none

def Binary64.constantText (x : Binary64) : String :=
  match x.value.almostWhole? with
  | some i => toString i
  | none => x.plainText

end Pseudocode
