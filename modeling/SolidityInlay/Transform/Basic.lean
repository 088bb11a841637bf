import SolidityInlay.Analysis.Basic
import SolidityInlay.SourceMap.Basic

/-!
# Transforming a host file

Each compiled site is replaced by an expression that builds its artifacts, and an import of the
runtime is put in front, after a hashbang line if there is one. Sites without a known source stay as
they are. The first site that stands in the way stops the whole transformation.

Main definitions: `transform`, `Transformed`, `TransformError`, `artifactPayload`.
-/

namespace SolidityInlay

inductive TransformError where
  | compilation (site : Span) (diagnostics : List Diagnostic)
  | crashed (site : Span) (message : String)
  | unknownName (name : String) (span : Span) (available : List String)
deriving DecidableEq, Repr

namespace TransformError

/-- The message of the first error. -/
def firstError (diagnostics : List Diagnostic) : String :=
  match diagnostics.find? Diagnostic.isError with
  | some d => d.message
  | none => "unknown error"

def message : TransformError → String
  | compilation site diagnostics =>
    "Solidity compilation failed at " ++ site.text ++ ": " ++ firstError diagnostics
  | crashed site message =>
    "Solidity compiler failed to run for site at " ++ site.text ++ ": " ++ message
  | unknownName name _ available =>
    "contract \x60" ++ name ++ "\x60 not found in compiled output (available: " ++
      String.intercalate ", " available ++ ")"

end TransformError

def artifactsName : String := "__SolArtifacts"

def importLine (runtimeModule : String) : String :=
  "import \x7b Artifacts as " ++ artifactsName ++ " \x7d from " ++ Json.quote runtimeModule ++ ";\n"

def artifactJson (a : Artifact) : Json.Value :=
  .object [
    ("abi", .array a.abi),
    ("bytecode", .string a.creationHex),
    ("deployedBytecode", .string a.deployedHex)]

def artifactPayload (u : CompiledUnit) : Json.Value :=
  .object [
    ("contracts", .object (u.contracts.entries.map fun (name, a) => (name, artifactJson a))),
    ("key", .string u.key)]

def constructorText (u : CompiledUnit) (name : Option String) : String :=
  let arguments := (artifactPayload u).compact ++
    match name with
    | some name => ", " ++ Json.quote name
    | none => ""
  "new " ++ artifactsName ++ "(" ++ arguments ++ ")"

structure Replacement where
  span : Span
  text : Text
deriving DecidableEq, Repr

/-- What to do with a site: nothing, a replacement, or an error. -/
def SiteAnalysis.replacement (s : SiteAnalysis) : Except TransformError (Option Replacement) :=
  match s.outcome with
  | .unresolved => .ok none
  | .failed diagnostics => .error (.compilation s.site.span diagnostics)
  | .crashed message => .error (.crashed s.site.span message)
  | .compiled held =>
    match s.site.name with
    | none => .ok (some ⟨s.site.span, (constructorText held.unit none).toList⟩)
    | some name =>
      if held.unit.contracts.contains name.value then
        .ok (some ⟨s.site.span, (constructorText held.unit (some name.value)).toList⟩)
      else .error (.unknownName name.value name.span held.unit.contractNames)

/-- The replacements of sites in order, up to the first error. -/
def replacements : List SiteAnalysis → Except TransformError (List Replacement)
  | [] => .ok []
  | s :: rest => do
    let first ← s.replacement
    let more ← replacements rest
    .ok (first.toList ++ more)

/-- The leading hashbang line with its newline; empty if there is none. -/
def hashbang (text : Text) : Text :=
  match text with
  | '#' :: '!' :: _ =>
    let line := text.takeWhile (· != '\n')
    line ++ (text.drop line.length).take 1
  | _ => []

def splice (text : Text) (cursor : Nat) : List Replacement → List Chunk
  | [] => [.copied (text.dropBytes cursor) cursor]
  | r :: rest =>
    .copied (text.slice ⟨cursor, r.span.start⟩) cursor :: .replacement r.text r.span.start ::
      splice text r.span.stop rest

/-- The hashbang line, ended by a newline in any case. -/
def prologue (line : Text) : List Chunk :=
  match line.getLast? with
  | none => []
  | some '\n' => [.copied line 0]
  | some _ => [.copied line 0, .unmapped ['\n']]

def transformedChunks (runtimeModule : String) (text : Text) (rs : List Replacement) : List Chunk :=
  let line := hashbang text
  prologue line ++ .unmapped (importLine runtimeModule).toList :: splice text line.size rs

structure Transformed where
  code : String
  map : SourceMap
deriving DecidableEq, Repr

/-- Transforms a file; none if there is nothing to replace. -/
def transform (runtimeModule : String) (a : Analysis) :
    Except TransformError (Option Transformed) := do
  let rs ← replacements a.sites
  if rs.isEmpty then .ok none
  else
    let text := a.text.toList
    let chunks := transformedChunks runtimeModule text rs
    .ok (some {
      code := String.ofList (Chunk.code chunks)
      map := .ofChunks (a.path.fileName?.getD "") (.ofText text) chunks })

end SolidityInlay
