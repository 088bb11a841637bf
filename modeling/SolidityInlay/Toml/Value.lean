import SolidityInlay.Text.Basic

/-!
# TOML values

Values of TOML and the rules by which statements add to the tables of a document. How a table came
about decides what may still add to it: a table with a header of its own is closed to other headers
and to dotted keys, a table that a header only passed through may get its own header once, a table
made by a dotted key is open to dotted keys, and an inline table is complete. A dotted key or header
that passes an array of tables goes on in its last table.

Main definitions: `Toml.Value`, `Toml.assign`, `Toml.openTable`, `Toml.appendTable`.
-/

namespace SolidityInlay.Toml

inductive TableKind where
  /-- By its own header. -/
  | header
  /-- By a header of a table inside it. -/
  | implied
  /-- By a dotted key. -/
  | dotted
  /-- Written in braces. -/
  | inline
deriving DecidableEq, Repr

/-- A TOML value. Of floats and date-times, which no setting is, only the kind is kept. -/
inductive Value where
  | string (s : String)
  | integer (n : Int)
  | float
  | bool (b : Bool)
  | dateTime
  | array (items : List Value)
  /-- An array of tables that have headers. -/
  | tables (items : List Value)
  | table (kind : TableKind) (entries : List (String × Value))
deriving Repr, Inhabited

/-- The entries of a table, each key once. -/
abbrev Entries := List (String × Value)

def alter (key : String) (change : Option Value → Option Value) : Entries → Option Entries
  | [] => (change none).map fun v => [(key, v)]
  | (k, v) :: rest =>
    if k == key then (change (some v)).map fun v => (k, v) :: rest
    else (alter key change rest).map ((k, v) :: ·)

/-- Changes the last table of an array of tables. -/
def alterLast (change : Entries → Option Entries) (items : List Value) : Option Value :=
  match items.getLast? with
  | some (.table kind entries) =>
    (change entries).map fun entries => .tables (items.dropLast ++ [.table kind entries])
  | _ => none

def assign : List String → Value → Entries → Option Entries
  | [], _, _ => none
  | [key], value, entries =>
    alter key (fun old => if old.isSome then none else some value) entries
  | key :: rest, value, entries =>
    let inner := assign rest value
    alter key
      (fun
        | none => (inner []).map (.table .dotted)
        | some (.table kind entries) =>
          if kind = .dotted ∨ kind = .implied ∧ 1 < rest.length then
            (inner entries).map (.table kind)
          else none
        | some (.tables items) => if 1 < rest.length then alterLast inner items else none
        | some _ => none)
      entries

/-- Changes the table at a path, implying the tables that are missing on the way. -/
def atTable (change : Entries → Option Entries) : List String → Entries → Option Entries
  | [], entries => change entries
  | key :: rest, entries =>
    let inner := atTable change rest
    alter key
      (fun
        | none => (inner []).map (.table .implied)
        | some (.table kind entries) =>
          if kind = .inline then none else (inner entries).map (.table kind)
        | some (.tables items) => alterLast inner items
        | some _ => none)
      entries

def openTable (path : List String) (entries : Entries) : Option Entries :=
  match path.getLast? with
  | none => none
  | some key =>
    atTable
      (alter key fun
        | none => some (.table .header [])
        | some (.table .implied entries) => some (.table .header entries)
        | some _ => none)
      path.dropLast entries

def appendTable (path : List String) (entries : Entries) : Option Entries :=
  match path.getLast? with
  | none => none
  | some key =>
    atTable
      (alter key fun
        | none => some (.tables [.table .header []])
        | some (.tables items) => some (.tables (items ++ [.table .header []]))
        | some _ => none)
      path.dropLast entries

end SolidityInlay.Toml
