import Pseudocode.Render.Outline
import Pseudocode.Wire.Stored

/-! The command line: what it asks for, and what is answered. -/

namespace Pseudocode

structure RenderRequest where
  path : String
  function : Option String
  options : RenderOptions
  deriving Repr

inductive Command where
  | help
  | render (request : RenderRequest)
  deriving Repr

inductive UsageError where
  | unknownCommand (name : String)
  | unknownOption (name : String)
  | missingValue (option : String)
  | repeated (option : String)
  | missingPath
  | extraPath (path : String)
  deriving Repr

structure Outcome where
  exitCode : UInt8
  stdout : String
  stderr : String
  deriving Repr

structure PartialRequest where
  path : Option String := none
  function : Option String := none
  qualify : Bool := false
  deriving Repr

namespace PartialRequest

def addPath (r : PartialRequest) (path : String) : Except UsageError PartialRequest :=
  if r.path.isSome then .error (.extraPath path) else .ok { r with path := some path }

def addFunction (r : PartialRequest) (name : String) : Except UsageError PartialRequest :=
  if r.function.isSome then .error (.repeated "--function")
    else .ok { r with function := some name }

def addQualify (r : PartialRequest) : Except UsageError PartialRequest :=
  if r.qualify then .error (.repeated "--qualify-instance-members")
    else .ok { r with qualify := true }

def finish (r : PartialRequest) : Except UsageError RenderRequest :=
  match r.path with
  | some path => .ok ⟨path, r.function, ⟨r.qualify⟩⟩
  | none => .error .missingPath

end PartialRequest

def functionValue? (arg : String) : Option String :=
  match splitFirst? "--function=".toList arg.toList with
  | some ([], value) => some (String.ofList value)
  | _ => none

def looksLikeOption (arg : String) : Bool :=
  match arg.toList with
  | '-' :: _ :: _ => true
  | _ => false

/-- Reads the arguments of a request. Behind `--` there are only paths. -/
def readRequest (r : PartialRequest) (onlyPaths : Bool) :
    List String → Except UsageError PartialRequest
  | [] => .ok r
  | arg :: args => do
    if onlyPaths then readRequest (← r.addPath arg) true args
    else if arg = "--" then readRequest r true args
    else if arg = "--qualify-instance-members" then readRequest (← r.addQualify) false args
    else if arg = "--function" then
      match args with
      | [] => .error (.missingValue arg)
      | name :: args =>
        if looksLikeOption name then .error (.missingValue arg)
        else readRequest (← r.addFunction name) false args
    else match functionValue? arg with
      | some name => readRequest (← r.addFunction name) false args
      | none =>
        if looksLikeOption arg then .error (.unknownOption arg)
        else readRequest (← r.addPath arg) false args

def Command.ofArgs : List String → Except UsageError Command
  | [] => .ok .help
  | name :: args =>
    if name = "render" then do
      return .render (← (← readRequest {} false args).finish)
    else .error (.unknownCommand name)

def helpText : String :=
  "\n".intercalate [
    "Kismet script bytecode to pseudocode renderer CLI",
    "",
    "Usage: dekismet_cli [COMMAND]",
    "",
    "Commands:",
    "  render      Renders a decoded script dump (JSON) as pseudocode",
    "  completion  Generate shell completion",
    "  help        Print this message or the help of the given subcommand(s)",
    "",
    "Options:",
    "  -h, --help     Print help",
    "  -V, --version  Print version",
    ""]

namespace UsageError

def message : UsageError → String
  | unknownCommand name => "unrecognized subcommand '" ++ name ++ "'"
  | unknownOption name => "unexpected argument '" ++ name ++ "' found"
  | missingValue option => "a value is required for '" ++ option ++ "'"
  | repeated option => "the argument '" ++ option ++ "' cannot be used multiple times"
  | missingPath => "the path of a dump is required"
  | extraPath path => "unexpected argument '" ++ path ++ "' found"

end UsageError

namespace Outcome

def success (stdout : String) : Outcome := ⟨0, stdout, ""⟩

def failure (exitCode : UInt8) (message : String) : Outcome := ⟨exitCode, "", message ++ "\n"⟩

end Outcome

def RenderRequest.run (r : RenderRequest) (content : Option ByteArray) : Outcome :=
  match ScriptDump.load content with
  | .error e => .failure 1 ("failed to load " ++ quoted r.path ++ ": " ++ e.message)
  | .ok dump =>
    match dump.renderPart r.function r.options with
    | .error e => .failure 1 ("render error: " ++ e.message)
    | .ok text => .success text

end Pseudocode
