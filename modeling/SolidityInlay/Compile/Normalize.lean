import SolidityInlay.Compile.Artifact
import SolidityInlay.Compile.Request
import SolidityInlay.Compile.Response

/-!
# From a response to a compiled unit

A response gives a unit, or, if anything in it is an error, the list of all diagnostics. Code that
is not hexadecimal is an error of its own, after what the compiler reported.

Main definitions: `Diagnostic.ofReport`, `normalize`.
-/

namespace SolidityInlay

/-- The diagnostic of a report. A location counts if it is an ordered range of the compiled file. -/
def Diagnostic.ofReport (r : Report) : Diagnostic where
  severity := .ofString r.severity
  message := r.message
  formatted := r.formatted
  span := r.location.bind fun l =>
    if l.file = inlineFile ∧ 0 ≤ l.start ∧ l.start ≤ l.stop then some ⟨l.start.toNat, l.stop.toNat⟩
    else none

namespace Code

/-- Drops every leading `0x`. -/
def strip : Text → Text
  | '0' :: 'x' :: rest => strip rest
  | cs => cs

/-- Whether a text has a place for the address of a library. -/
def hasPlaceholder : Text → Bool
  | '_' :: '_' :: '$' :: _ => true
  | _ :: rest => hasPlaceholder rest
  | [] => false

def problem (name kind : String) (object : Text) (e : Hex.Error) : Diagnostic :=
  let subject := kind ++ " bytecode of \x60" ++ name ++ "\x60 "
  { severity := .error
    message :=
      if hasPlaceholder object then subject ++ "references unlinked libraries"
      else subject ++ "is not valid hex: " ++ e.message }

/-- The bytes of code in hexadecimal, or why there are none. -/
def decode (name kind object : String) : Except Diagnostic Bytes :=
  let digits := strip object.toList
  match Hex.decode (String.ofList digits) with
  | .ok bytes => .ok bytes
  | .error e => .error (problem name kind digits e)

end Code

/-- An artifact, and a diagnostic for each code that cannot be read. -/
def ContractOutput.artifact (name : String) (c : ContractOutput) : Artifact × List Diagnostic :=
  let creation := Code.decode name "creation" c.creation
  let deployed := Code.decode name "deployed" c.deployed
  let bytes (code : Except Diagnostic Bytes) : Bytes := code.toOption.getD []
  let problems (code : Except Diagnostic Bytes) : List Diagnostic :=
    match code with
    | .ok _ => []
    | .error d => [d]
  (⟨c.abi, bytes creation, bytes deployed⟩, problems creation ++ problems deployed)

/-- The unit of a response, or all its diagnostics if one is an error. -/
def normalize (key : String) (r : Response) : Except (List Diagnostic) CompiledUnit :=
  let outputs := (r.contracts.get? inlineFile).getD .empty
  let contracts := outputs.mapWithName ContractOutput.artifact
  let diagnostics := r.reports.map .ofReport ++ contracts.entries.flatMap fun e => e.2.2
  if diagnostics.any Diagnostic.isError then .error diagnostics
  else .ok ⟨key, contracts.mapWithName fun _ a => a.1, diagnostics⟩

end SolidityInlay
