import SolidityInlay.Text.Basic

/-!
# Base64 variable-length quantities

A signed 64-bit number as Base64 digits of five bits each, lowest first. The lowest bit of the
number written is the sign, and every digit but the last has its sixth bit set.

Main definitions: `Vlq.encode`.
-/

namespace SolidityInlay.Vlq

def alphabet : List Char :=
  "ABCDEFGHIJKLMNOPQRSTUVWXYZabcdefghijklmnopqrstuvwxyz0123456789+/".toList

def digitChar (n : Nat) : Char := alphabet.getD n 'A'

/-- The magnitude moved up by one bit, with the sign below it. The magnitude of the smallest number
does not fit and is lost. -/
def signed (value : Int64) : UInt64 :=
  if value < 0 then ((0 - value.toUInt64) <<< 1) ||| 1 else value.toUInt64 <<< 1

/-- Digits of five bits, lowest first, marked except for the last. -/
def digits (n : Nat) : List Nat :=
  if n < 32 then [n] else (32 + n % 32) :: digits (n / 32)
termination_by n

def encode (value : Int64) : Text := (digits (signed value).toNat).map digitChar

end SolidityInlay.Vlq
