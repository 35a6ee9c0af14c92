import Pseudocode.Text.Printable

/-! Quoting a text for a message: between double quotes, with everything that
would not show written as an escape. -/

namespace Pseudocode

def hexDigits (ten : Char) (n : Nat) : List Char :=
  (Nat.toDigits 16 n).map fun d => if d.isDigit then d
    else Char.ofNat (d.toNat - 'a'.toNat + ten.toNat)

def quotedChar (c : Char) : List Char :=
  match c with
  | '"' => ['\\', '"']
  | '\\' => ['\\', '\\']
  | '\n' => ['\\', 'n']
  | '\r' => ['\\', 'r']
  | '\t' => ['\\', 't']
  | '\x00' => ['\\', '0']
  | c => if isPrintable c then [c] else ['\\', 'u', '\x7b'] ++ hexDigits 'a' c.toNat ++ ['\x7d']

def quoted (s : String) : String := String.ofList ('"' :: s.toList.flatMap quotedChar ++ ['"'])

end Pseudocode
