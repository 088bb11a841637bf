import SolidityInlay.Bytes.Basic

/-!
# Reading UTF-8

Bytes as text. Where the bytes are no encoding, the longest run that begins one is replaced as a
whole by U+FFFD, and a byte that begins none is replaced alone.

Main definitions: `Utf8.decodeLossy`.
-/

namespace SolidityInlay.Utf8

/-- The character for bytes that are no encoding. -/
def replacement : Char := '�'

def isContinuation (b : UInt8) : Bool := 0x80 ≤ b.toNat && b.toNat < 0xC0

/-- How many bytes an encoding with this first byte has, and between what its second byte lies. -/
def lead? (b : UInt8) : Option (Nat × Nat × Nat) :=
  let n := b.toNat
  if 0xC2 ≤ n && n ≤ 0xDF then some (2, 0x80, 0xBF)
  else if n == 0xE0 then some (3, 0xA0, 0xBF)
  else if n == 0xED then some (3, 0x80, 0x9F)
  else if 0xE1 ≤ n && n ≤ 0xEF then some (3, 0x80, 0xBF)
  else if n == 0xF0 then some (4, 0x90, 0xBF)
  else if 0xF1 ≤ n && n ≤ 0xF3 then some (4, 0x80, 0xBF)
  else if n == 0xF4 then some (4, 0x80, 0x8F)
  else none

/-- The continuation bytes at the front, at most `count`. -/
def continuations : Nat → Bytes → Bytes
  | 0, _ => []
  | _, [] => []
  | count + 1, b :: bs => if isContinuation b then b :: continuations count bs else []

def step (b : UInt8) (rest : Bytes) : Char × Nat :=
  if b.toNat < 0x80 then (Char.ofNat b.toNat, 1)
  else
    match lead? b with
    | none => (replacement, 1)
    | some (size, low, high) =>
      match rest with
      | [] => (replacement, 1)
      | second :: more =>
        if low ≤ second.toNat && second.toNat ≤ high then
          let tail := second :: continuations (size - 2) more
          if tail.length + 1 == size then
            let top := b.toNat % Nat.pow 2 (7 - size)
            (Char.ofNat (tail.foldl (fun n c => n * 64 + c.toNat % 64) top), size)
          else (replacement, tail.length + 1)
        else (replacement, 1)

/-- The text of bytes, character by character, for at most `fuel` characters. -/
def decodeFrom : Nat → Bytes → Text
  | 0, _ => []
  | _ + 1, [] => []
  | fuel + 1, b :: rest =>
    let (c, taken) := step b rest
    c :: decodeFrom fuel (rest.drop (taken - 1))

def decodeLossy (bytes : Bytes) : Text := decodeFrom bytes.length bytes

end SolidityInlay.Utf8
