import SolidityInlay.Compile.Options
import SolidityInlay.File.Path

/-!
# Configuration

The settings of a project.

Main definitions: `Config`, `Config.compilerOptions`, `Config.effectiveExcludes`, `Config.summary`.
-/

namespace SolidityInlay

/-- The settings of a project; every one has a default. -/
structure Config where
  /-- The file the settings come from. -/
  source : Option Path := none
  /-- The tag of embedded sources. -/
  marker : String := "sol"
  /-- The module that transformed code imports and that declarations add to. -/
  runtimeModule : String := "sol-embed/runtime"
  /-- The declaration file, relative to the project's root. -/
  declarations : Path := ⟨"sol-env.d.ts"⟩
  /-- The compiler's program. -/
  solc : String := "solc"
  optimize : Bool := false
  runs : UInt32 := 200
  evmVersion : Option String := none
  /-- Whether compiled units are stored. -/
  cache : Bool := true
  /-- For how many milliseconds an editor may show the same declarations. -/
  refreshMs : Nat := 1000
  /-- Patterns of files to include; none means all. -/
  includes : List String := []
  /-- Patterns of files to exclude, instead of the default ones. -/
  excludes : List String := []
  /-- Patterns of files to exclude beside the default ones. -/
  moreExcludes : List String := []
deriving DecidableEq, Repr, Inhabited

def defaultExcludes : List String := [
  "**/node_modules/**",
  "**/.git/**",
  "**/dist/**",
  "**/build/**",
  "**/out/**",
  "**/coverage/**",
  "**/.next/**",
  "**/.turbo/**",
  "**/*.d.ts"]

namespace Config

def compilerOptions (c : Config) : CompilerOptions := ⟨c.optimize, c.runs, c.evmVersion⟩

def effectiveExcludes (c : Config) : List String :=
  if c.excludes.isEmpty then defaultExcludes ++ c.moreExcludes else c.excludes

/-- Up to three patterns, or two and the number of the others. -/
def excludeSummary (patterns : List String) : String :=
  if patterns.length ≤ 3 then String.intercalate ", " patterns
  else
    String.intercalate ", " (patterns.take 2) ++ ", ... (+" ++ toString (patterns.length - 2) ++
      " more)"

def summary (c : Config) : String :=
  let source := match c.source with
    | some path => path.text
    | none => "(defaults)"
  let optimizer := if c.optimize then "on" else "off"
  String.intercalate "\n" (
    ["   Config: " ++ source,
      "   Marker: " ++ c.marker,
      "   solc: " ++ c.solc ++ " (optimizer " ++ optimizer ++ ", runs " ++ toString c.runs.toNat ++
        ")"] ++
    (if c.includes.isEmpty then [] else ["   Include: " ++ String.intercalate ", " c.includes]) ++
    ["   Exclude: " ++ excludeSummary c.effectiveExcludes])

end Config

end SolidityInlay
