import SolidityInlay.Bytes.Basic
import SolidityInlay.Text.Classes

/-!
# Hexadecimal text

Bytes as pairs of hexadecimal digits. Writing uses lower case; reading takes either case and says
which byte is no digit.

Main definitions: `Hex.encode`, `Hex.decode`, `Hex.Error`.
-/

namespace SolidityInlay.Hex

inductive Error where
  | oddLength
  | invalid (byte : UInt8) (index : Nat)
deriving DecidableEq, Repr

def encodeByte (b : UInt8) : Text := [Nat.digitChar (b.toNat / 16), Nat.digitChar (b.toNat % 16)]

def encode (bytes : Bytes) : Text := bytes.flatMap encodeByte

def encodeString (bytes : Bytes) : String := String.ofList (encode bytes)

def digit (b : UInt8) (index : Nat) : Except Error Nat :=
  match hexDigit? (Char.ofNat b.toNat) with
  | some n => .ok n
  | none => .error (.invalid b index)

def decodePairs (index : Nat) : Bytes → Except Error Bytes
  | [] => .ok []
  | [_] => .error .oddLength
  | high :: low :: rest => do
    let h ← digit high index
    let l ← digit low (index + 1)
    let bytes ← decodePairs (index + 2) rest
    .ok (UInt8.ofNat (16 * h + l) :: bytes)

/-- The bytes of a hexadecimal text. An odd number of digits is reported before anything else. -/
def decode (s : String) : Except Error Bytes :=
  let bytes := Bytes.ofString s
  if bytes.length % 2 = 1 then .error .oddLength else decodePairs 0 bytes

def decode? (s : String) : Option Bytes := (decode s).toOption

/-- A byte as a quoted character, escaped unless it can be shown. -/
def quotedByte (b : UInt8) : String :=
  let n := b.toNat
  let body : String :=
    if n == 0 then "\\0"
    else if n == 9 then "\\t"
    else if n == 10 then "\\n"
    else if n == 13 then "\\r"
    else if n == 0x27 then "\\'"
    else if n == 0x5c then "\\\\"
    else if n < 0x20 || (0x7f ≤ n && n ≤ 0xa0) || n == 0xad then
      "\\u\x7b" ++ String.ofList (Nat.toDigits 16 n) ++ "\x7d"
    else String.ofList [Char.ofNat n]
  "'" ++ body ++ "'"

def Error.message : Error → String
  | .oddLength => "Odd number of digits"
  | .invalid byte index =>
    "Invalid character " ++ quotedByte byte ++ " at position " ++ toString index

end SolidityInlay.Hex
