import Pseudocode.Decimal.Scaling
import Pseudocode.Json.Strings

/-! Reading a JSON text into a draft. -/

namespace Pseudocode

def isJsonBlank (c : Char) : Bool := c = ' ' || c = '\t' || c = '\n' || c = '\r'

def skipBlanks (cs : List Char) : List Char := cs.dropWhile isJsonBlank

def digitsValue (digits : List Char) : Nat :=
  digits.foldl (fun n d => n * 10 + (d.toNat - '0'.toNat)) 0

structure NumberParts where
  negative : Bool
  whole : List Char
  fraction : List Char
  power : Int
  isDecimal : Bool
  deriving Repr

/-- Takes up digits behind a number as long as the longer number fits into a word.
What is left of them comes along. -/
def takeDigits (number : Nat) : List Char → Nat × List Char
  | [] => (number, [])
  | d :: rest =>
    let longer := number * 10 + (d.toNat - '0'.toNat)
    if longer < Nat.pow 2 64 then takeDigits longer rest else (number, d :: rest)

namespace NumberParts

/-- The digits that are taken up. Those that are left count as zeros in front of
the point, and not at all behind it. -/
def decimal (p : NumberParts) : Numeral :=
  let (whole, wholeLeft) := takeDigits 0 p.whole
  let (digits, fractionLeft) := takeDigits whole p.fraction
  ⟨digits, p.power + wholeLeft.length + fractionLeft.length - p.fraction.length⟩

def real (p : NumberParts) : Number :=
  let bits := Binary64.scaled p.decimal
  if bits = BinaryFormat.binary64.infinityBits then .outOfRange
  else .real (.ofPattern (BinaryFormat.binary64.withSign p.negative bits))

/-- The number with these parts. Zero with a sign, and whole numbers too large for
a word, count as real. -/
def number (p : NumberParts) : Number :=
  let (whole, left) := takeDigits 0 p.whole
  let isWord := left.isEmpty && (!p.negative || (whole ≠ 0 && whole ≤ Nat.pow 2 63))
  if !p.isDecimal && isWord then .int (if p.negative then -(whole : Int) else whole) else p.real

end NumberParts

def readPower (cs : List Char) : Except Bool (Int × List Char) :=
  let (negative, cs) := match cs with
    | '-' :: cs => (true, cs)
    | '+' :: cs => (false, cs)
    | cs => (false, cs)
  let digits := cs.takeWhile Char.isDigit
  let rest := cs.dropWhile Char.isDigit
  if digits.isEmpty then .error rest.isEmpty
  else .ok (if negative then -(digitsValue digits : Int) else digitsValue digits, rest)

def readFraction (negative : Bool) (whole cs : List Char) : Except Bool (NumberParts × List Char) :=
  let (fraction, cs, hasPoint) := match cs with
    | '.' :: cs => (cs.takeWhile Char.isDigit, cs.dropWhile Char.isDigit, true)
    | cs => ([], cs, false)
  if hasPoint && fraction.isEmpty then .error cs.isEmpty
  else match cs with
    | 'e' :: cs =>
      (readPower cs).map fun (power, cs) => (⟨negative, whole, fraction, power, true⟩, cs)
    | 'E' :: cs =>
      (readPower cs).map fun (power, cs) => (⟨negative, whole, fraction, power, true⟩, cs)
    | cs => .ok (⟨negative, whole, fraction, 0, hasPoint⟩, cs)

/-- A number at the beginning of a text: a sign, digits without a leading zero, a
fraction, an exponent. The error says whether the text ended inside it. -/
def readNumber (cs : List Char) : Except Bool (NumberParts × List Char) :=
  let (negative, cs) := match cs with
    | '-' :: cs => (true, cs)
    | cs => (false, cs)
  let whole := cs.takeWhile Char.isDigit
  let rest := cs.dropWhile Char.isDigit
  match whole with
  | [] => .error rest.isEmpty
  | '0' :: _ :: _ => .error false
  | whole => readFraction negative whole rest

def readWord : List Char → List Char → Except Bool (List Char)
  | [], cs => .ok cs
  | _ :: _, [] => .error true
  | w :: ws, c :: cs => if w = c then readWord ws cs else .error false

abbrev ReadTo (α : Type) := α × Option (List Char)

def readScalar : List Char → ReadTo Draft
  | [] => (.gap .nothing, none)
  | '"' :: cs =>
    let (q, rest) := readString cs
    (.string q, rest)
  | 'n' :: cs => word .null (readWord ['u', 'l', 'l'] cs)
  | 't' :: cs => word (.bool true) (readWord ['r', 'u', 'e'] cs)
  | 'f' :: cs => word (.bool false) (readWord ['a', 'l', 's', 'e'] cs)
  | c :: cs =>
    if c = '-' || c.isDigit then
      match readNumber (c :: cs) with
      | .ok (parts, rest) => (.number parts.number, some rest)
      | .error atEnd => (.gap (.numeral atEnd), none)
    else (.gap .junk, none)
where
  word (d : Draft) : Except Bool (List Char) → ReadTo Draft
    | .ok rest => (d, some rest)
    | .error atEnd => (.gap (.word atEnd), none)

/-- So many lists and objects may be open at once. -/
def depthLimit : Nat := 127

mutual

def readValue (fuel depth : Nat) (cs : List Char) : ReadTo Draft :=
  match fuel with
  | 0 => (.gap .nothing, none)
  | fuel + 1 =>
    match skipBlanks cs with
    | '[' :: cs =>
      let ((items, ending), rest) := readItems fuel (depth + 1) true cs
      (.list (depthLimit ≤ depth) items ending, rest)
    | '\x7b' :: cs =>
      let ((members, ending), rest) := readMembers fuel (depth + 1) true cs
      (.object (depthLimit ≤ depth) members ending, rest)
    | cs => readScalar cs

def readItems (fuel depth : Nat) (first : Bool) (cs : List Char) : ReadTo (List Draft × ListEnd) :=
  match fuel with
  | 0 => (([], .atEnd), none)
  | fuel + 1 =>
    match skipBlanks cs with
    | [] => (([], .atEnd), none)
    | ']' :: cs => (([], .closed), some cs)
    | c :: cs =>
      if first then readItem fuel depth (c :: cs)
      else if c = ',' then
        match skipBlanks cs with
        | ']' :: _ => (([], .trailingComma), none)
        | cs => readItem fuel depth cs
      else (([], .junk), none)

def readItem (fuel depth : Nat) (cs : List Char) : ReadTo (List Draft × ListEnd) :=
  match fuel with
  | 0 => (([], .atEnd), none)
  | fuel + 1 =>
    match readValue fuel depth cs with
    | (d, none) => (([d], .atEnd), none)
    | (d, some cs) =>
      let ((items, ending), rest) := readItems fuel depth false cs
      ((d :: items, ending), rest)

def readMembers (fuel depth : Nat) (first : Bool) (cs : List Char) :
    ReadTo (List (Quotation × Draft) × ObjectEnd) :=
  match fuel with
  | 0 => (([], .atEnd), none)
  | fuel + 1 =>
    match skipBlanks cs with
    | [] => (([], .atEnd), none)
    | '\x7d' :: cs => (([], .closed), some cs)
    | c :: cs =>
      if first then
        if c = '"' then readMember fuel depth cs else (([], .badKey), none)
      else if c = ',' then
        match skipBlanks cs with
        | [] => (([], .commaAtEnd), none)
        | '"' :: cs => readMember fuel depth cs
        | '\x7d' :: _ => (([], .trailingComma), none)
        | _ :: _ => (([], .badKey), none)
      else (([], .junk), none)

def readMember (fuel depth : Nat) (cs : List Char) :
    ReadTo (List (Quotation × Draft) × ObjectEnd) :=
  match fuel with
  | 0 => (([], .atEnd), none)
  | fuel + 1 =>
    match readString cs with
    | (key, none) => (([(key, .gap .nothing)], .atEnd), none)
    | (key, some cs) =>
      match skipBlanks cs with
      | [] => (([(key, .gap (.colon true))], .atEnd), none)
      | ':' :: cs =>
        match readValue fuel depth cs with
        | (d, none) => (([(key, d)], .atEnd), none)
        | (d, some cs) =>
          let ((members, ending), rest) := readMembers fuel depth false cs
          (((key, d) :: members, ending), rest)
      | _ :: _ => (([(key, .gap (.colon false))], .atEnd), none)

end

structure Document where
  value : Draft
  hasTrailing : Bool
  deriving Repr

/-- Reads a text. Three steps are enough for each character, so that reading never
stops early. -/
def Document.ofText (text : String) : Document :=
  let cs := text.toList
  match readValue (3 * cs.length + 3) 0 cs with
  | (d, none) => ⟨d, false⟩
  | (d, some rest) => ⟨d, !(skipBlanks rest).isEmpty⟩

end Pseudocode
