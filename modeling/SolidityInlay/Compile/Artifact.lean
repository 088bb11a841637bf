import SolidityInlay.Bytes.Hex
import SolidityInlay.Compile.Diagnostic
import SolidityInlay.Json.Value

/-!
# Compiled contracts

The interface and the code of a contract, and the contracts that one source compiles to.

Main definitions: `Artifact`, `CompiledUnit`.
-/

namespace SolidityInlay

structure Artifact where
  /-- The interface, as the items the compiler lists. -/
  abi : List Json.Value
  /-- The code that creates the contract. -/
  creation : Bytes
  /-- The code the contract runs. -/
  deployed : Bytes
deriving Repr, Inhabited

namespace Artifact

def creationHex (a : Artifact) : String := "0x" ++ Hex.encodeString a.creation

def deployedHex (a : Artifact) : String := "0x" ++ Hex.encodeString a.deployed

def functionNames (a : Artifact) : List String :=
  a.abi.filterMap fun item =>
    if (item.get? "type").bind Json.Value.string? == some "function" then
      (item.get? "name").bind Json.Value.string?
    else none

end Artifact

structure CompiledUnit where
  /-- The content key, as hexadecimal text. -/
  key : String
  contracts : NameMap Artifact
  /-- What the compiler said; no errors. -/
  diagnostics : List Diagnostic
deriving Repr

namespace CompiledUnit

def contract? (u : CompiledUnit) (name : String) : Option Artifact := u.contracts.get? name

def contractNames (u : CompiledUnit) : List String := u.contracts.names

end CompiledUnit

end SolidityInlay
