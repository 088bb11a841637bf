import SolidityInlay.Compile.Artifact
import SolidityInlay.Compile.Key
import SolidityInlay.Json.Record
import SolidityInlay.Json.Printer
import SolidityInlay.Store.Codec

/-!
# Rows of the store

A compiled unit as it is stored: contracts in order with their interfaces as JSON text, and
diagnostics. The key is not part of the row.

Main definitions: `Row`, `Row.codec`, `Row.ofUnit`, `Row.unit?`.
-/

namespace SolidityInlay

structure StoredArtifact where
  name : String
  abi : String
  creation : Bytes
  deployed : Bytes
deriving DecidableEq, Repr

structure Row where
  artifacts : List StoredArtifact
  diagnostics : List Diagnostic
deriving DecidableEq, Repr

namespace Codec

def bytes : Codec Bytes := list byte

def severity : Codec Severity :=
  (nat 4).convert
    (fun
      | .error => 0
      | .warning => 1
      | .info => 2)
    (fun
      | 0 => some .error
      | 1 => some .warning
      | 2 => some .info
      | _ => none)

def span : Codec Span :=
  (pair (nat 8) (nat 8)).convert (fun s => (s.start, s.stop)) (fun p => some ⟨p.1, p.2⟩)

def diagnostic : Codec Diagnostic :=
  (pair severity (pair string (pair (option string) (option span)))).convert
    (fun d => (d.severity, d.message, d.formatted, d.span))
    (fun (severity, message, formatted, span) => some ⟨severity, message, formatted, span⟩)

def storedArtifact : Codec StoredArtifact :=
  (pair string (pair string (pair bytes bytes))).convert
    (fun a => (a.name, a.abi, a.creation, a.deployed))
    (fun (name, abi, creation, deployed) => some ⟨name, abi, creation, deployed⟩)

end Codec

namespace Row

def codec : Codec Row :=
  (Codec.pair (Codec.list Codec.storedArtifact) (Codec.list Codec.diagnostic)).convert
    (fun r => (r.artifacts, r.diagnostics))
    (fun (artifacts, diagnostics) => some ⟨artifacts, diagnostics⟩)

def decode? (bytes : Bytes) : Option Row := (codec.read bytes).map Prod.fst

def encode (row : Row) : Bytes := codec.write row

def ofUnit (u : CompiledUnit) : Row where
  artifacts := u.contracts.entries.map fun (name, a) =>
    ⟨name, (Json.Value.array a.abi).compact, a.creation, a.deployed⟩
  diagnostics := u.diagnostics

def abi? (text : String) : Option (List Json.Value) :=
  (Json.readForm text.toList).bind (Json.Form.items? Json.Form.value? Json.depthLimit)

/-- The unit of a row; none if an interface is no JSON array. -/
def unit? (key : ContentKey) (row : Row) : Option CompiledUnit := do
  let contracts ← row.artifacts.mapM fun a => do
    let abi ← abi? a.abi
    some (a.name, (⟨abi, a.creation, a.deployed⟩ : Artifact))
  some ⟨key.hex, .ofList contracts, row.diagnostics⟩

end Row

end SolidityInlay
