import SolidityInlay.Compile.Request
import SolidityInlay.Compile.Response
import SolidityInlay.Bytes.Utf8
import SolidityInlay.Json.Printer
import SolidityInlay.Text.Classes

/-!
# Compilers

A compiler answers requests and names its version, and has a state that every question may change. A
compiler that is a program is started for each question.

Main definitions: `Compiler`, `CompilerError`, `Compiler.ofProgram`.
-/

namespace SolidityInlay

inductive CompilerError where
  | launch (program cause : String)
  | exchange (cause : String)
  | exited (status stderr : String)
  | malformed
deriving DecidableEq, Repr

def CompilerError.message : CompilerError → String
  | launch program cause => "failed to launch \x60" ++ program ++ "\x60: " ++ cause
  | exchange cause => "i/o with the compiler failed: " ++ cause
  | exited status stderr => "compiler exited with " ++ status ++ ": " ++ stderr
  | malformed => "compiler produced unreadable output"

/-- A compiler over states `σ`. -/
structure Compiler (σ : Type) where
  compile : Request → σ → Except CompilerError Response × σ
  version : σ → Except CompilerError String × σ

/-! ## Programs -/

structure Finished where
  status : Nat
  stdout : Bytes
  stderr : Bytes
deriving DecidableEq, Repr

/-- A program: from arguments and input to what it leaves, or why it did not start. -/
abbrev Program := List String → Bytes → Except String Finished

namespace Text

/-- The text without white space at both ends. -/
def trim (cs : Text) : Text :=
  ((cs.dropWhile isWhiteSpace).reverse.dropWhile isWhiteSpace).reverse

end Text

/-- The readable text of output, without white space at both ends. -/
def readableOutput (bytes : Bytes) : String := String.ofList (Utf8.decodeLossy bytes).trim

namespace Finished

def succeeded (f : Finished) : Bool := f.status == 0

def failure (f : Finished) : CompilerError :=
  .exited ("exit status: " ++ toString f.status) (readableOutput f.stderr)

end Finished

namespace Compiler

def programVersion (name : String) (run : Program) : Except CompilerError String :=
  match run ["--version"] [] with
  | .error cause => .error (.launch name cause)
  | .ok finished =>
    if finished.succeeded then .ok (readableOutput finished.stdout) else .error finished.failure

/-- The response of a program to a request in standard JSON. -/
def programCompile (name : String) (run : Program) (request : Request) :
    Except CompilerError Response :=
  match run ["--standard-json"] (Bytes.ofString request.json.compact) with
  | .error cause => .error (.launch name cause)
  | .ok finished =>
    if finished.succeeded then
      match (Bytes.toString? finished.stdout).bind fun s => Response.parse? s.toList with
      | some response => .ok response
      | none => .error .malformed
    else .error finished.failure

/-- The compiler that is a program; it keeps no state. -/
def ofProgram (name : String) (run : Program) : Compiler Unit where
  compile request _ := (programCompile name run request, ())
  version _ := (programVersion name run, ())

def isAvailable (run : Program) : Bool :=
  match run ["--version"] [] with
  | .ok finished => finished.succeeded
  | .error _ => false

end Compiler

end SolidityInlay
