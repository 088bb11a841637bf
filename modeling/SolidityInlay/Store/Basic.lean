import SolidityInlay.Number.Rounded
import SolidityInlay.Number.Total
import SolidityInlay.Store.Row

/-!
# The store of compiled units

Rows under `build/key`, where the build is the fingerprint of the compiler. A row that cannot be
read is as good as absent.

Main definitions: `Store`, `Store.get?`, `Store.put`, `Store.clear`, `StoreStats`.
-/

namespace SolidityInlay

structure Store where
  rows : NameMap Bytes
deriving Repr, Inhabited

structure StoreStats where
  entries : Nat
  bytes : Nat
deriving DecidableEq, Repr

namespace Store

def empty : Store := ⟨.empty⟩

def rowName (build : String) (key : ContentKey) : String := build ++ "/" ++ key.hex

def get? (s : Store) (build : String) (key : ContentKey) : Option CompiledUnit :=
  ((s.rows.get? (rowName build key)).bind Row.decode?).bind (Row.unit? key)

def putRow (s : Store) (name : String) (bytes : Bytes) : Store := ⟨s.rows.insert name bytes⟩

def put (s : Store) (build : String) (key : ContentKey) (u : CompiledUnit) : Store :=
  s.putRow (rowName build key) (Row.ofUnit u).encode

def clear (_ : Store) : Store := empty

def stats (s : Store) : StoreStats where
  entries := s.rows.size
  bytes := total (s.rows.entries.map fun e => e.1.utf8ByteSize + e.2.length)

end Store

/-- A number of bytes in the largest unit it fills, with two places except for single bytes. -/
def sizeText (bytes : Nat) : String :=
  let inUnit (unit : Nat) (name : String) := twoPlaces (nearestDouble bytes) unit ++ name
  let kilo := 1024
  let mega := 1024 * kilo
  let giga := 1024 * mega
  if giga ≤ bytes then inUnit giga " GB"
  else if mega ≤ bytes then inUnit mega " MB"
  else if kilo ≤ bytes then inUnit kilo " KB"
  else toString bytes ++ " B"

end SolidityInlay
