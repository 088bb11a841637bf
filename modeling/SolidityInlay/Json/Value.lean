import SolidityInlay.NameMap
import SolidityInlay.Number.Double

/-!
# JSON values

Values of JSON. A number is an integer of 64 bits, with or without sign, or a double. An object is
its fields in order; objects read from text have their fields sorted by key, each key once.

Main definitions: `Json.Number`, `Json.Value`, `Json.Value.ofFields`, `Json.Value.get?`.
-/

namespace SolidityInlay.Json

inductive Number where
  | integer (n : Int)
  | double (d : Double)
deriving DecidableEq, Repr

inductive Value where
  | null
  | bool (b : Bool)
  | number (n : Number)
  | string (s : String)
  | array (items : List Value)
  | object (fields : List (String × Value))
deriving Repr, Inhabited

namespace Value

/-- The object with these fields: sorted by key, the last of equal keys kept. -/
def ofFields (fields : List (String × Value)) : Value :=
  .object (fields.foldl (fun sorted (k, v) => insertSorted k v sorted) [])

def get? (v : Value) (key : String) : Option Value :=
  match v with
  | .object fields => (fields.find? fun f => f.1 == key).map Prod.snd
  | _ => none

def string? : Value → Option String
  | .string s => some s
  | _ => none

def bool? : Value → Option Bool
  | .bool b => some b
  | _ => none

def array? : Value → Option (List Value)
  | .array items => some items
  | _ => none

def integer? : Value → Option Int
  | .number (.integer n) => some n
  | _ => none

def int (n : Int) : Value := .number (.integer n)

def nat (n : Nat) : Value := .number (.integer n)

end Value

end SolidityInlay.Json
