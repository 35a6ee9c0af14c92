import Pseudocode.Json.Reader
import Pseudocode.Json.Value

/-! What can be wrong with a stored dump: its text, or what the text says. -/

namespace Pseudocode

inductive Found where
  | null
  | bool (value : Bool)
  | int (value : Int)
  | real (value : Binary64)
  | string (value : String)
  | sequence
  | map
  /-- A name alone where a named value belongs. -/
  | unitVariant
  deriving DecidableEq, Repr

inductive Misfit where
  | invalidType (found : Found) (expected : String)
  | invalidValue (found : Found) (expected : String)
  | invalidLength (length : Nat) (expected : String)
  | missingField (name : String)
  | duplicateField (name : String)
  | unknownVariant (name : String) (known : List String)
  deriving DecidableEq, Repr

inductive DecodeError where
  | fault (fault : Fault)
  | misfit (misfit : Misfit)
  deriving DecidableEq, Repr

instance : Inhabited DecodeError := ⟨.fault default⟩

namespace Found

def text : Found → String
  | null => "null"
  | bool value => "boolean `" ++ (if value then "true" else "false") ++ "`"
  | int value => "integer `" ++ toString value ++ "`"
  | real value => "floating point `" ++ value.storedText.getD "null" ++ "`"
  | string value => "string " ++ quoted value
  | sequence => "sequence"
  | map => "map"
  | unitVariant => "unit variant"

end Found

def oneOf (names : List String) : String :=
  match names.map fun n => "`" ++ n ++ "`" with
  | [a] => a
  | [a, b] => a ++ " or " ++ b
  | names => "one of " ++ ", ".intercalate names

namespace Misfit

def message : Misfit → String
  | invalidType found expected => "invalid type: " ++ found.text ++ ", expected " ++ expected
  | invalidValue found expected => "invalid value: " ++ found.text ++ ", expected " ++ expected
  | invalidLength length expected =>
    "invalid length " ++ toString length ++ ", expected " ++ expected
  | missingField name => "missing field `" ++ name ++ "`"
  | duplicateField name => "duplicate field `" ++ name ++ "`"
  | unknownVariant name known => "unknown variant `" ++ name ++ "`, expected " ++ oneOf known

end Misfit

inductive ErrorCategory where
  | endOfText | grammar | data
  deriving DecidableEq, Repr

namespace DecodeError

def message : DecodeError → String
  | fault f => f.message
  | misfit m => m.message

def category : DecodeError → ErrorCategory
  | fault f => if f.isEnd then .endOfText else .grammar
  | misfit _ => .data

end DecodeError

abbrev Decoded (α : Type) := Except DecodeError α

def checkFault : Option Fault → Decoded Unit
  | none => .ok ()
  | some f => .error (.fault f)

def failWith {α : Type} (m : Misfit) : Decoded α := .error (.misfit m)

def Quotation.read (q : Quotation) : Decoded String := q.content.mapError .fault

/-- How a message names what stands in a text, or the fault that keeps it from
being named. -/
def Draft.found : Draft → Decoded Found
  | .null => .ok .null
  | .bool value => .ok (.bool value)
  | .number (.int value) => .ok (.int value)
  | .number (.real value) => .ok (.real value)
  | .number .outOfRange => .error (.fault .numberRange)
  | .string q => q.read.map .string
  | .list .. => .ok .sequence
  | .object .. => .ok .map
  | .gap g => .error (.fault g.fault)

def Draft.mismatch {α : Type} (d : Draft) (expected : String) : Decoded α := do
  failWith (.invalidType (← d.found) expected)

end Pseudocode
