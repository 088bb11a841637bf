import SolidityInlay.Config.Basic
import SolidityInlay.Json.Record
import SolidityInlay.Toml.Parser

/-!
# Settings in files

Settings are a table of TOML or the value of one field of a JSON object. Both are read as one record
of known fields; a field that is missing or null keeps its default. A record may also be a list of
all its fields in order: in JSON of exactly these, in TOML maybe with more after them.

Main definitions: `Settings.ofToml?`, `Settings.ofPackage?`.
-/

namespace SolidityInlay

mutual

/-- A TOML value as a form. A date-time is an object with a field that no record knows. -/
def Toml.Value.form : Toml.Value → Json.Form
  | .string s => .string (some s)
  | .integer n => .number (some (.integer n))
  | .float => .number none
  | .bool b => .bool b
  | .dateTime => .object [(some "date-time", .null)]
  | .array items | .tables items => .array (Toml.valueForms items)
  | .table _ entries => .object (Toml.entryForms entries)

def Toml.valueForms : List Toml.Value → List Json.Form
  | [] => []
  | v :: vs => v.form :: Toml.valueForms vs

def Toml.entryForms : List (String × Toml.Value) → List (Option String × Json.Form)
  | [] => []
  | (k, v) :: rest => (some k, v.form) :: Toml.entryForms rest

end

namespace Json

def Form.bool? (_ : Nat) : Form → Option Bool
  | .bool b => some b
  | _ => none

def Form.below? (bound : Nat) (_ : Nat) : Form → Option Nat
  | .number (some (.integer n)) => if 0 ≤ n ∧ n < bound then some n.toNat else none
  | _ => none

end Json

namespace Settings

open Json (Form Fields)

/-- A record that as a list needs all its fields, and exactly these if `exact`. -/
def record? (exact : Bool) (names : List String) (depth : Nat) : Form → Option Fields
  | .array items =>
    if items.length < names.length || (exact && names.length < items.length) then none
    else Form.record? names depth (.array (items.take names.length))
  | form => form.record? names depth

/-- The settings of the optimizer: whether it is on, and its runs. -/
def optimizer? (exact : Bool) (depth : Nat) (form : Form) : Option (Option Bool × Option Nat) := do
  let fields ← record? exact ["enabled", "runs"] depth form
  some (← fields.nullable Form.bool? "enabled", ← fields.nullable (Form.below? UInt32.size) "runs")

def names : List String := ["marker", "runtime-module", "declarations", "solc", "evm-version",
  "optimizer", "cache", "refresh-interval-ms", "include", "exclude", "extend-exclude"]

/-- The configuration that a record of settings from a file describes. -/
def config? (exact : Bool) (source : Path) (depth : Nat) (form : Form) : Option Config := do
  let fields ← record? exact names depth form
  let text := fields.nullable Form.string?
  let texts := fields.nullable (Form.items? Form.string?)
  let base : Config := {}
  let optimizer := (← fields.nullable (optimizer? exact) "optimizer").getD (none, none)
  some {
    source := some source
    marker := (← text "marker").getD base.marker
    runtimeModule := (← text "runtime-module").getD base.runtimeModule
    declarations := ((← text "declarations").map Path.mk).getD base.declarations
    solc := (← text "solc").getD base.solc
    optimize := optimizer.1.getD base.optimize
    runs := (optimizer.2.map Nat.toUInt32).getD base.runs
    evmVersion := ← text "evm-version"
    cache := (← fields.nullable Form.bool? "cache").getD base.cache
    refreshMs :=
      (← fields.nullable (Form.below? UInt64.size) "refresh-interval-ms").getD base.refreshMs
    includes := (← texts "include").getD base.includes
    excludes := (← texts "exclude").getD base.excludes
    moreExcludes := (← texts "extend-exclude").getD base.moreExcludes }

def ofToml? (source : Path) (text : String) : Option Config := do
  let entries ← Toml.parse text.toList
  config? false source Json.depthLimit (Toml.Value.table .header entries).form

def packageField : String := "solEmbed"

/-- The configuration in the JSON text of a package description, if it has one. -/
def ofPackage? (source : Path) (text : String) : Option Config := do
  let form ← Json.readForm text.toList
  let fields ← record? true [packageField] Json.depthLimit form
  (← fields.nullable (config? true source) packageField)

end Settings

end SolidityInlay
