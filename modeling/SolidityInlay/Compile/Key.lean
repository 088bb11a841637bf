import SolidityInlay.Bytes.Hex
import SolidityInlay.Bytes.Sha256
import SolidityInlay.Compile.Options

/-!
# Content keys

The identity of a compilation: a hash over the source and every option. The fingerprint of a
compiler is a short hash of its version.

Main definitions: `ContentKey`, `ContentKey.message`, `ContentKey.derive`, `fingerprint`.
-/

namespace SolidityInlay

structure ContentKey where
  bytes : Bytes
  length_bytes : bytes.length = 32
deriving DecidableEq, Repr

namespace ContentKey

/-- What is hashed: the source, a zero, the options; the EVM version comes last, with its length. -/
def message (source : String) (options : CompilerOptions) : Bytes :=
  Bytes.ofString source ++ 0 :: (if options.optimize then 1 else 0) ::
    Bytes.bigEndian 4 options.runs.toNat ++
    match options.evmVersion with
    | none => [0]
    | some version =>
      let bytes := Bytes.ofString version
      1 :: Bytes.bigEndian 8 bytes.length ++ bytes

def derive (source : String) (options : CompilerOptions) : ContentKey :=
  ⟨Sha256.digest (message source options), by simp⟩

def hex (key : ContentKey) : String := Hex.encodeString key.bytes

def ofHex? (s : String) : Option ContentKey :=
  (Hex.decode? s).bind fun bytes =>
    if h : bytes.length = 32 then some ⟨bytes, h⟩ else none

end ContentKey

def fingerprint (version : String) : String :=
  Hex.encodeString ((Sha256.digest (Bytes.ofString version)).take 8)

end SolidityInlay
