/-! The ways in which a text fails to be JSON. -/

namespace Pseudocode

inductive Fault where
  | endInValue | endInList | endInObject | endInString
  | expectedValue | expectedWord | expectedColon | expectedListComma | expectedObjectComma
  | trailingComma | keyNotString | badNumber | numberRange | badEscape | controlCharacter
  | loneSurrogate | unpairedSurrogate | trailingText | tooDeep
  deriving DecidableEq, Repr, Inhabited

namespace Fault

def isEnd : Fault → Bool
  | endInValue | endInList | endInObject | endInString => true
  | _ => false

def message : Fault → String
  | endInValue => "EOF while parsing a value"
  | endInList => "EOF while parsing a list"
  | endInObject => "EOF while parsing an object"
  | endInString => "EOF while parsing a string"
  | expectedValue => "expected value"
  | expectedWord => "expected ident"
  | expectedColon => "expected `:`"
  | expectedListComma => "expected `,` or `]`"
  | expectedObjectComma => "expected `,` or `\x7d`"
  | trailingComma => "trailing comma"
  | keyNotString => "key must be a string"
  | badNumber => "invalid number"
  | numberRange => "number out of range"
  | badEscape => "invalid escape"
  | controlCharacter => "control character (\\u0000-\\u001F) found while parsing a string"
  | loneSurrogate => "lone leading surrogate in hex escape"
  | unpairedSurrogate => "unexpected end of hex escape"
  | trailingText => "trailing characters"
  | tooDeep => "recursion limit exceeded"

end Fault

end Pseudocode
