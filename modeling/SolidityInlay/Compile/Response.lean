import SolidityInlay.Json.Record

/-!
# Responses of the compiler

The part of the compiler's standard JSON response that is used: contracts by file and name, with
their interface and code, and the list of reports.

Main definitions: `Response`, `Response.ofForm?`, `Response.parse?`.
-/

namespace SolidityInlay

/-- A place in a file; offsets are negative if unknown. -/
structure Location where
  file : String
  start : Int
  stop : Int
deriving DecidableEq, Repr

structure Report where
  severity : String
  message : String
  formatted : Option String
  location : Option Location
deriving DecidableEq, Repr

structure ContractOutput where
  abi : List Json.Value
  creation : String
  deployed : String
deriving Repr

structure Response where
  contracts : NameMap (NameMap ContractOutput)
  reports : List Report
deriving Repr

namespace Response

open Json

def location? (depth : Nat) (form : Form) : Option Location := do
  let fields ← form.record? ["file", "start", "end"] depth
  let file ← fields.required Form.string? "file"
  let start ← fields.required Form.int64? "start"
  let stop ← fields.required Form.int64? "end"
  some ⟨file, start, stop⟩

def report? (depth : Nat) (form : Form) : Option Report := do
  let fields ← form.record? ["severity", "message", "formattedMessage", "sourceLocation"] depth
  let severity ← fields.required Form.string? "severity"
  let message ← fields.required Form.string? "message"
  let formatted ← fields.nullable Form.string? "formattedMessage"
  let location ← fields.nullable location? "sourceLocation"
  some ⟨severity, message, formatted, location⟩

def code? (depth : Nat) (form : Form) : Option String := do
  let fields ← form.record? ["object"] depth
  fields.withDefault Form.string? "" "object"

def codes? (depth : Nat) (form : Form) : Option (String × String) := do
  let fields ← form.record? ["bytecode", "deployedBytecode"] depth
  let creation ← fields.withDefault code? "" "bytecode"
  let deployed ← fields.withDefault code? "" "deployedBytecode"
  some (creation, deployed)

def contract? (depth : Nat) (form : Form) : Option ContractOutput := do
  let fields ← form.record? ["abi", "evm"] depth
  let abi ← fields.withDefault (Form.items? Form.value?) [] "abi"
  let (creation, deployed) ← fields.withDefault codes? ("", "") "evm"
  some ⟨abi, creation, deployed⟩

def ofForm? (depth : Nat) (form : Form) : Option Response := do
  let fields ← form.record? ["contracts", "errors"] depth
  let contracts ← fields.withDefault (Form.entries? (Form.entries? contract?)) .empty "contracts"
  let reports ← fields.withDefault (Form.items? report?) [] "errors"
  some ⟨contracts, reports⟩

def parse? (text : Text) : Option Response := (readForm text).bind (ofForm? depthLimit)

end Response

end SolidityInlay
