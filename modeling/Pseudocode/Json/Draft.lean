import Pseudocode.Decimal.Rounding
import Pseudocode.Json.Fault

/-! A JSON text as far as it can be read. Where it breaks off, the break stands in
the tree, and it is left to the one who takes the tree apart to notice: a value
that is skipped is held to fewer rules than one that is read, and a fault behind
the first mistake in the data is never seen. -/

namespace Pseudocode

inductive Number where
  | int (value : Int)
  | real (value : Binary64)
  | outOfRange
  deriving DecidableEq, Repr, Inhabited

/-- A string. It may end properly, so that the text goes on behind it, and still
not be a text. -/
structure Quotation where
  content : Except Fault String
  skipped : Except Fault Unit
  deriving Repr

inductive Gap where
  | nothing
  | junk
  | word (atEnd : Bool)
  | numeral (atEnd : Bool)
  | colon (atEnd : Bool)
  deriving DecidableEq, Repr, Inhabited

inductive ListEnd where
  | closed | atEnd | junk | trailingComma
  deriving DecidableEq, Repr, Inhabited

inductive ObjectEnd where
  | closed | atEnd | junk | trailingComma | commaAtEnd | badKey
  deriving DecidableEq, Repr, Inhabited

/-- A value as far as it can be read. Lists and objects know whether too many are
open around them. -/
inductive Draft where
  | null
  | bool (value : Bool)
  | number (value : Number)
  | string (value : Quotation)
  | list (tooDeep : Bool) (items : List Draft) (ending : ListEnd)
  | object (tooDeep : Bool) (members : List (Quotation × Draft)) (ending : ObjectEnd)
  | gap (gap : Gap)
  deriving Repr

instance : Inhabited Draft := ⟨.null⟩

namespace Gap

def fault : Gap → Fault
  | nothing => .endInValue
  | junk => .expectedValue
  | word atEnd => if atEnd then .endInValue else .expectedWord
  | numeral atEnd => if atEnd then .endInValue else .badNumber
  | colon atEnd => if atEnd then .endInObject else .expectedColon

def skipFault : Gap → Fault
  | numeral _ => .badNumber
  | g => g.fault

/-- The fault met by a reader who only looks at the first character for a string
or an object. -/
def glanceFault : Gap → Fault
  | word _ | numeral _ => .expectedValue
  | g => g.fault

end Gap

namespace ListEnd

def fault? : ListEnd → Option Fault
  | closed => none
  | atEnd => some .endInList
  | junk => some .expectedListComma
  | trailingComma => some .trailingComma

def skipFault? : ListEnd → Option Fault
  | trailingComma => some .expectedValue
  | e => e.fault?

def closingFault? : ListEnd → Option Fault
  | junk => some .trailingText
  | e => e.fault?

end ListEnd

namespace ObjectEnd

def fault? : ObjectEnd → Option Fault
  | closed => none
  | atEnd => some .endInObject
  | junk => some .expectedObjectComma
  | trailingComma => some .trailingComma
  | commaAtEnd => some .endInValue
  | badKey => some .keyNotString

def skipFault? : ObjectEnd → Option Fault
  | trailingComma => some .keyNotString
  | commaAtEnd => some .endInObject
  | e => e.fault?

end ObjectEnd

namespace Quotation

def fault? (q : Quotation) : Option Fault :=
  match q.content with
  | .ok _ => none
  | .error f => some f

def skipFault? (q : Quotation) : Option Fault :=
  match q.skipped with
  | .ok _ => none
  | .error f => some f

end Quotation

mutual

def Draft.fault? : Draft → Option Fault
  | .null => none
  | .bool _ => none
  | .number .outOfRange => some .numberRange
  | .number _ => none
  | .string q => q.fault?
  | .list tooDeep items ending =>
    if tooDeep then some .tooDeep else (itemsFault? items).or ending.fault?
  | .object tooDeep members ending =>
    if tooDeep then some .tooDeep else (membersFault? members).or ending.fault?
  | .gap g => some g.fault

def itemsFault? : List Draft → Option Fault
  | [] => none
  | d :: rest => d.fault?.or (itemsFault? rest)

def membersFault? : List (Quotation × Draft) → Option Fault
  | [] => none
  | (key, d) :: rest => key.fault?.or (d.fault?.or (membersFault? rest))

end

mutual

/-- The first fault of a value that is passed over: its depth, the range of its
numbers and the surrogates in its strings do not matter. -/
def Draft.skipFault? : Draft → Option Fault
  | .null => none
  | .bool _ => none
  | .number _ => none
  | .string q => q.skipFault?
  | .list _ items ending => (itemsSkipFault? items).or ending.skipFault?
  | .object _ members ending => (membersSkipFault? members).or ending.skipFault?
  | .gap g => some g.skipFault

def itemsSkipFault? : List Draft → Option Fault
  | [] => none
  | d :: rest => d.skipFault?.or (itemsSkipFault? rest)

def membersSkipFault? : List (Quotation × Draft) → Option Fault
  | [] => none
  | (key, d) :: rest => key.skipFault?.or (d.skipFault?.or (membersSkipFault? rest))

end

end Pseudocode
