import Pseudocode.Render.Outline
import Pseudocode.Wire.Decode
import Pseudocode.Wire.Encode

/-! Stored dumps: loading one from a file, and what can go wrong with it. -/

namespace Pseudocode

inductive FileError where
  | notFound | notText
  deriving DecidableEq, Repr

inductive DumpError where
  | file (error : FileError)
  | decode (error : DecodeError)
  | functionNotFound (name : String)
  deriving DecidableEq, Repr

namespace FileError

def message : FileError → String
  | notFound => "No such file or directory (os error 2)"
  | notText => "stream did not contain valid UTF-8"

end FileError

namespace DumpError

def message : DumpError → String
  | file e => "i/o error: " ++ e.message
  | decode e => "invalid script dump: " ++ e.message
  | functionNotFound name => "function not found: " ++ name

end DumpError

def fileText (content : Option ByteArray) : Except DumpError String :=
  match content with
  | none => .error (.file .notFound)
  | some bytes =>
    match String.fromUTF8? bytes with
    | some text => .ok text
    | none => .error (.file .notText)

namespace ScriptDump

def parse (text : String) : Except DumpError ScriptDump := (ofJson text).mapError .decode

def load (content : Option ByteArray) : Except DumpError ScriptDump := do parse (← fileText content)

def renderPart (d : ScriptDump) (function : Option String) (options : RenderOptions) :
    Except DumpError String :=
  match function with
  | none => .ok (d.render options)
  | some name =>
    match d.renderFunction? name options with
    | some text => .ok text
    | none => .error (.functionNotFound name)

end ScriptDump

def decompile (text : String) (options : RenderOptions) : Except DumpError String := do
  return (← ScriptDump.parse text).render options

def decompileFunction (text name : String) (options : RenderOptions) : Except DumpError String := do
  (← ScriptDump.parse text).renderPart (some name) options

/-- Writes a value, reads it again, and tells whether the second is written like
the first. -/
def readsBack {α : Type} (decode : String → Decoded α) (json : α → Json) (v : α) :
    Decoded Bool := do
  let again ← decode (json v).text
  return (json again).text = (json v).text

end Pseudocode
