import SolidityInlay.Text.Basic

/-!
# Diagnostics

What the compiler says about a Solidity text.

Main definitions: `Severity`, `Diagnostic`.
-/

namespace SolidityInlay

inductive Severity where
  | error
  | warning
  | info
deriving DecidableEq, Repr

namespace Severity

/-- Reads a severity in any case; an unknown one is for information. -/
def ofString (s : String) : Severity :=
  let lower := s.map Char.toLower
  if lower = "error" then error else if lower = "warning" then warning else info

def label : Severity → String
  | error => "error"
  | warning => "warning"
  | info => "info"

end Severity

structure Diagnostic where
  severity : Severity
  message : String
  /-- The message with the quoted source, as the compiler lays it out. -/
  formatted : Option String := none
  /-- Where in the Solidity text. -/
  span : Option Span := none
deriving DecidableEq, Repr

namespace Diagnostic

def isError (d : Diagnostic) : Bool := d.severity == .error

end Diagnostic

end SolidityInlay
