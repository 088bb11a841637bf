import SolidityInlay.Compile.Options
import SolidityInlay.Json.Value

/-!
# Requests to the compiler

A request of the compiler's standard JSON form: one Solidity text under a fixed file name, and the
options.

Main definitions: `Request`, `Request.json`, `inlineFile`.
-/

namespace SolidityInlay

def inlineFile : String := "Inline.sol"

structure Request where
  source : String
  options : CompilerOptions
deriving DecidableEq, Repr

namespace Request

/-- What the compiler is asked to return for every contract. -/
def outputs : List String := ["abi", "evm.bytecode.object", "evm.deployedBytecode.object"]

def settings (options : CompilerOptions) : List (String × Json.Value) :=
  [("optimizer", .object [("enabled", .bool options.optimize), ("runs", .nat options.runs.toNat)])]
    ++ (options.evmVersion.map fun version => ("evmVersion", .string version)).toList
    ++ [("outputSelection", .object [("*", .object [("*", .array (outputs.map .string))])])]

def json (r : Request) : Json.Value :=
  .object [
    ("language", .string "Solidity"),
    ("sources", .object [(inlineFile, .object [("content", .string r.source)])]),
    ("settings", .object (settings r.options))]

end Request

end SolidityInlay
