import SolidityInlay.Bytes.Basic

/-!
# Formats of stored values

A format writes a value as bytes and reads it back from the front of bytes. Numbers have a fixed
width, lowest byte first; texts and lists come after their length; an optional value after a byte
that tells whether it is there.

Main definitions: `Codec` and its combinators.
-/

namespace SolidityInlay

structure Codec (α : Type) where
  write : α → Bytes
  read : Bytes → Option (α × Bytes)

namespace Codec

variable {α β γ : Type}

/-- A natural number in `width` bytes. -/
def nat (width : Nat) : Codec Nat where
  write n := Bytes.littleEndian width n
  read bytes :=
    if width ≤ bytes.length then some (Bytes.toNatLittle (bytes.take width), bytes.drop width)
    else none

def byte : Codec UInt8 where
  write b := [b]
  read
    | [] => none
    | b :: rest => some (b, rest)

/-- Values of a type that another describes; reading may refuse a description. -/
def convert (c : Codec α) (describe : β → α) (make : α → Option β) : Codec β where
  write b := c.write (describe b)
  read bytes := (c.read bytes).bind fun (a, rest) => (make a).map (·, rest)

def pair (c : Codec α) (d : Codec β) : Codec (α × β) where
  write p := c.write p.1 ++ d.write p.2
  read bytes :=
    (c.read bytes).bind fun (a, rest) => (d.read rest).map fun (b, rest) => ((a, b), rest)

def readMany (c : Codec α) : Nat → Bytes → Option (List α × Bytes)
  | 0, bytes => some ([], bytes)
  | count + 1, bytes =>
    (c.read bytes).bind fun (a, rest) =>
      (readMany c count rest).map fun (as, rest) => (a :: as, rest)

def list (c : Codec α) : Codec (List α) where
  write as := (nat 8).write as.length ++ as.flatMap c.write
  read bytes := ((nat 8).read bytes).bind fun (count, rest) => readMany c count rest

/-- An optional value after a byte: zero for none, one for some. -/
def option (c : Codec α) : Codec (Option α) where
  write
    | none => [0]
    | some a => 1 :: c.write a
  read
    | [] => none
    | b :: rest =>
      if b = 0 then some (none, rest)
      else if b = 1 then (c.read rest).map fun (a, rest) => (some a, rest)
      else none

def string : Codec String := (list byte).convert Bytes.ofString Bytes.toString?

end Codec

end SolidityInlay
