import Pseudocode.Json.Draft

/-! Reading JSON strings. A string is first cut into units, which is all that
matters to one who passes over it, and then the units are put together to
characters. -/

namespace Pseudocode

inductive TextUnit where
  | plain (c : Char)
  | escaped (c : Char)
  | code (value : Nat)
  deriving DecidableEq, Repr

/-- How the units of a string end. `fault?` is none when the string is closed, and
`pairing` is the fault when the last unit still waits for its other half. -/
structure UnitsEnd where
  fault? : Option Fault
  pairing : Fault
  deriving DecidableEq, Repr

def hexValue? (c : Char) : Option Nat :=
  if c.isDigit then some (c.toNat - '0'.toNat)
  else if 'a' ≤ c && c ≤ 'f' then some (c.toNat - 'a'.toNat + 10)
  else if 'A' ≤ c && c ≤ 'F' then some (c.toNat - 'A'.toNat + 10)
  else none

def hexCode? (a b c d : Char) : Option Nat :=
  match hexValue? a, hexValue? b, hexValue? c, hexValue? d with
  | some a, some b, some c, some d => some (((a * 16 + b) * 16 + c) * 16 + d)
  | _, _, _, _ => none

def escapedChar? : Char → Option Char
  | '"' => some '"'
  | '\\' => some '\\'
  | '/' => some '/'
  | 'b' => some '\x08'
  | 'f' => some '\x0c'
  | 'n' => some '\n'
  | 'r' => some '\r'
  | 't' => some '\t'
  | _ => none

/-- The fault of a code without four hexadecimal digits: the text may be too short
for them, counted in bytes. -/
def codeFault (cs : List Char) : Fault :=
  if cs.foldl (fun size c => size + c.utf8Size) 0 < 4 then .endInString else .badEscape

def readUnits : List Char → List TextUnit × UnitsEnd × List Char
  | [] => ([], ⟨some .endInString, .endInString⟩, [])
  | '"' :: cs => ([], ⟨none, .unpairedSurrogate⟩, cs)
  | '\\' :: 'u' :: a :: b :: c :: d :: cs =>
    match hexCode? a b c d with
    | some value =>
      let (units, ending, rest) := readUnits cs
      (.code value :: units, ending, rest)
    | none =>
      ([], ⟨some (codeFault (a :: b :: c :: d :: cs)), codeFault (a :: b :: c :: d :: cs)⟩, [])
  | '\\' :: 'u' :: cs => ([], ⟨some (codeFault cs), codeFault cs⟩, [])
  | ['\\'] => ([], ⟨some .endInString, .endInString⟩, [])
  | '\\' :: e :: cs =>
    match escapedChar? e with
    | some c =>
      let (units, ending, rest) := readUnits cs
      (.escaped c :: units, ending, rest)
    | none => ([], ⟨some .badEscape, .unpairedSurrogate⟩, [])
  | c :: cs =>
    if c.toNat < 0x20 then ([], ⟨some .controlCharacter, .unpairedSurrogate⟩, [])
    else
      let (units, ending, rest) := readUnits cs
      (.plain c :: units, ending, rest)

def isHighSurrogate (code : Nat) : Bool := 0xd800 ≤ code && code ≤ 0xdbff

def isLowSurrogate (code : Nat) : Bool := 0xdc00 ≤ code && code ≤ 0xdfff

def pairedChar (high low : Nat) : Char :=
  Char.ofNat (0x10000 + (high - 0xd800) * 0x400 + (low - 0xdc00))

/-- Puts the units of a string together. A first half must be followed at once by
a second. -/
def joinUnits (ending : UnitsEnd) : List TextUnit → Except Fault (List Char)
  | [] =>
    match ending.fault? with
    | none => .ok []
    | some f => .error f
  | .plain c :: units => (joinUnits ending units).map (c :: ·)
  | .escaped c :: units => (joinUnits ending units).map (c :: ·)
  | .code value :: units =>
    if isLowSurrogate value then .error .loneSurrogate
    else if isHighSurrogate value then
      match units with
      | .code low :: units =>
        if isLowSurrogate low then (joinUnits ending units).map (pairedChar value low :: ·)
        else .error .loneSurrogate
      | [] => .error ending.pairing
      | _ :: _ => .error .unpairedSurrogate
    else (joinUnits ending units).map (Char.ofNat value :: ·)

def readString (cs : List Char) : Quotation × Option (List Char) :=
  let (units, ending, rest) := readUnits cs
  let content := (joinUnits ending units).map String.ofList
  match ending.fault? with
  | none => (⟨content, .ok ()⟩, some rest)
  | some f => (⟨content, .error f⟩, none)

end Pseudocode
