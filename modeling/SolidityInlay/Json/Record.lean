import SolidityInlay.Json.Parser

/-!
# Records in JSON

A record with known fields is written as an object, whose other fields are skipped and in which no
known field comes twice, or as an array with the fields in order, of which the last may be missing.
Whether a field that is not given has a default is up to the field.

Main definitions: `Json.Fields`, `Json.Form.record?`, `Json.Form.entries?`.
-/

namespace SolidityInlay.Json

/-- The given fields of a record by name, and the depth left for their values. -/
structure Fields where
  depth : Nat
  given : List (String × Form)

namespace Fields

def find? (fields : Fields) (name : String) : Option Form :=
  (fields.given.find? fun f => f.1 == name).map Prod.snd

/-- A field that must be given. -/
def required {α : Type} (fields : Fields) (read : Nat → Form → Option α) (name : String) :
    Option α :=
  (fields.find? name).bind (read fields.depth)

def withDefault {α : Type} (fields : Fields) (read : Nat → Form → Option α) (default : α)
    (name : String) : Option α :=
  match fields.find? name with
  | some form => read fields.depth form
  | none => some default

/-- A field that may be null or not given. -/
def nullable {α : Type} (fields : Fields) (read : Nat → Form → Option α) (name : String) :
    Option (Option α) :=
  match fields.find? name with
  | none | some .null => some none
  | some form => (read fields.depth form).map some

end Fields

/-- The known fields of an object, in which none comes twice and every key has a value. -/
def knownFields (names : List String) : List (Option String × Form) →
    Option (List (String × Form))
  | [] => some []
  | (none, _) :: _ => none
  | (some key, form) :: rest => do
    let more ← knownFields names rest
    if names.contains key then
      if more.any fun f => f.1 == key then none else some ((key, form) :: more)
    else some more

def Form.record? (names : List String) (depth : Nat) : Form → Option Fields
  | .object fields =>
    if depth ≤ 1 then none else (knownFields names fields).map fun given => ⟨depth - 1, given⟩
  | .array items =>
    if depth ≤ 1 || names.length < items.length then none
    else some ⟨depth - 1, names.zip items⟩
  | _ => none

def Form.items? {α : Type} (read : Nat → Form → Option α) (depth : Nat) : Form → Option (List α)
  | .array items => if depth ≤ 1 then none else items.mapM (read (depth - 1))
  | _ => none

/-- The entries of an object used as a map; of equal keys the last counts. -/
def Form.entries? {α : Type} (read : Nat → Form → Option α) (depth : Nat) :
    Form → Option (NameMap α)
  | .object fields =>
    if depth ≤ 1 then none
    else
      (fields.mapM fun (field : Option String × Form) => do
        let key ← field.1
        let value ← read (depth - 1) field.2
        some (key, value)).map .ofList
  | _ => none

def Form.string? (_ : Nat) : Form → Option String
  | .string s => s
  | _ => none

def Form.int64? (_ : Nat) : Form → Option Int
  | .number (some (.integer n)) => if n < Int.pow 2 63 then some n else none
  | _ => none

end SolidityInlay.Json
