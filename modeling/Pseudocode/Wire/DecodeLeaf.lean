import Pseudocode.Wire.Catalog
import Pseudocode.Wire.Error

/-! Decoding a stored value that has no parts, or the name or tag of one that has.
What stands beside a tag is read to its end before the tag is acted on; it is
called buffered, and so is everything inside it. -/

namespace Pseudocode

/-- Whether a value is decoded as its text is read, or after it has been read to
its end. Some things that a reader of text meets as a broken text are of the wrong
type to one who knows the whole value. -/
inductive ReadMode where
  | direct | buffered
  deriving DecidableEq, Repr

def ReadMode.buffer (mode : ReadMode) (d : Draft) : Decoded Unit :=
  match mode with
  | .direct => checkFault d.fault?
  | .buffered => .ok ()

def ReadMode.pass (mode : ReadMode) (d : Draft) : Decoded Unit :=
  match mode with
  | .direct => checkFault d.skipFault?
  | .buffered => .ok ()

def checkDepth (tooDeep : Bool) : Decoded Unit :=
  if tooDeep then .error (.fault .tooDeep) else .ok ()

def decodeInt (w : IntWidth) (d : Draft) : Decoded w.Carrier :=
  match d with
  | .number (.int i) =>
    match w.ofInt? i with
    | some v => .ok v
    | none => failWith (.invalidValue (.int i) w.name)
  | d => d.mismatch w.name

def decodeWide (d : Draft) : Decoded Binary64 :=
  match d with
  | .number (.int i) => .ok (.ofInt i)
  | .number (.real x) => .ok x
  | d => d.mismatch "f64"

/-- A whole number is rounded once, any other twice. -/
def decodeNarrow (d : Draft) : Decoded Binary32 :=
  match d with
  | .number (.int i) => .ok (.ofInt i)
  | .number (.real x) => .ok x.toBinary32
  | d => d.mismatch "f32"

def decodeBool (d : Draft) : Decoded Bool :=
  match d with
  | .bool value => .ok value
  | d => d.mismatch "a boolean"

def decodeText (d : Draft) : Decoded String :=
  match d with
  | .string q => q.read
  | d => d.mismatch "a string"

def chooseName {α : Type} (all : List α) (tag : α → String) (name : String) : Decoded α :=
  match all.find? (tag · = name) with
  | some a => .ok a
  | none => failWith (.unknownVariant name (all.map tag))

def missingKey {α : Type} : ObjectEnd → Decoded α
  | .badKey => .error (.fault .keyNotString)
  | .atEnd => .error (.fault .endInValue)
  | _ => .error (.fault .expectedValue)

def checkSingle (rest : List (Quotation × Draft)) (ending : ObjectEnd) : Decoded Unit :=
  match rest, ending with
  | [], .closed => .ok ()
  | [], .atEnd => .error (.fault .endInObject)
  | _, _ => .error (.fault .expectedValue)

def decodeUnit (mode : ReadMode) (d : Draft) : Decoded Unit :=
  match mode, d with
  | _, .null => .ok ()
  | .buffered, .object _ [] _ => .ok ()
  | _, d => d.mismatch "unit"

/-- A name: a string, or an object whose only key is the name. -/
def decodeName {α : Type} (all : List α) (tag : α → String) (mode : ReadMode) (d : Draft) :
    Decoded α :=
  match d, mode with
  | .string q, _ => do chooseName all tag (← q.read)
  | .object tooDeep members ending, .direct => do
    checkDepth tooDeep
    match members with
    | [] => missingKey ending
    | (key, d) :: rest =>
      let a ← chooseName all tag (← key.read)
      decodeUnit .direct d
      checkSingle rest ending
      return a
  | .object _ [(key, d)] _, .buffered => do
    let a ← chooseName all tag (← key.read)
    decodeUnit .buffered d
    return a
  | .object .., .buffered => failWith (.invalidValue .map "map with a single key")
  | .gap g, .direct => .error (.fault g.glanceFault)
  | _, .direct => .error (.fault .expectedValue)
  | d, .buffered => d.mismatch "string or map"

/-- The tag of a tagged value: a name or, once it is read, its number. -/
def decodeTag {α : Type} (all : List α) (tag : α → String) (mode : ReadMode) (d : Draft) :
    Decoded α :=
  match d, mode with
  | .string q, _ => do chooseName all tag (← q.read)
  | .number (.int (.ofNat n)), .buffered =>
    match all[n]? with
    | some a => .ok a
    | none =>
      failWith (.invalidValue (.int n) ("variant index 0 <= i < " ++ toString all.length))
  | d, _ => d.mismatch "variant identifier"

end Pseudocode
