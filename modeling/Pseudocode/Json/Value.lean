import Pseudocode.Decimal.Numeral
import Pseudocode.Text.Quoted

/-! JSON values and their compact text. -/

namespace Pseudocode

/-- A JSON value. Members of objects keep their order, and numbers keep the width
they are stored in. -/
inductive Json where
  | null
  | bool (value : Bool)
  | int (value : Int)
  | narrow (value : Binary32)
  | wide (value : Binary64)
  | string (value : String)
  | list (items : List Json)
  | object (members : List (String × Json))
  deriving Repr

instance : Inhabited Json := ⟨.null⟩

namespace Json

def escapeChar (c : Char) : List Char :=
  match c with
  | '"' => ['\\', '"']
  | '\\' => ['\\', '\\']
  | '\x08' => ['\\', 'b']
  | '\x0c' => ['\\', 'f']
  | '\n' => ['\\', 'n']
  | '\r' => ['\\', 'r']
  | '\t' => ['\\', 't']
  | c =>
    if c.toNat < 0x20 then
      ['\\', 'u', '0', '0', if c.toNat < 0x10 then '0' else '1'] ++ hexDigits 'a' (c.toNat % 0x10)
    else [c]

def stringChars (s : String) : List Char := '"' :: s.toList.flatMap escapeChar ++ ['"']

mutual

def chars : Json → List Char
  | null => "null".toList
  | bool value => (if value then "true" else "false").toList
  | int value => (toString value).toList
  | narrow value => (value.storedText.getD "null").toList
  | wide value => (value.storedText.getD "null").toList
  | string value => stringChars value
  | list items => '[' :: itemsChars items ++ [']']
  | object members => '\x7b' :: membersChars members ++ ['\x7d']

def itemsChars : List Json → List Char
  | [] => []
  | [v] => v.chars
  | v :: rest => v.chars ++ ',' :: itemsChars rest

def membersChars : List (String × Json) → List Char
  | [] => []
  | [(key, v)] => stringChars key ++ ':' :: v.chars
  | (key, v) :: rest => stringChars key ++ ':' :: v.chars ++ ',' :: membersChars rest

end

def text (v : Json) : String := String.ofList v.chars

mutual

def depth : Json → Nat
  | list items => itemsDepth items + 1
  | object members => membersDepth members + 1
  | _ => 0

def itemsDepth : List Json → Nat
  | [] => 0
  | v :: rest => max v.depth (itemsDepth rest)

def membersDepth : List (String × Json) → Nat
  | [] => 0
  | (_, v) :: rest => max v.depth (membersDepth rest)

end

end Json

end Pseudocode
