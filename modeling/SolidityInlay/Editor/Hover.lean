import SolidityInlay.Analysis.Basic

/-!
# Hover texts

What an editor shows over the name or the marker of a site, as Markdown.

Main definitions: `Hover`, `hoverAt?`, `Artifact.summary`.
-/

namespace SolidityInlay

structure Hover where
  span : Span
  contents : String
deriving DecidableEq, Repr

namespace Abi

open Json (Value)

def text? (v : Value) (key : String) : Option String := (v.get? key).bind Value.string?

/-- A parameter: its type, and its name if it has one. -/
def parameter (p : Value) : String :=
  let type := (text? p "type").getD "?"
  match text? p "name" with
  | some name => if name.isEmpty then type else type ++ " " ++ name
  | none => type

/-- The parameters of a list; none if it is no list. -/
def parameters (list : Option Value) : String :=
  match list with
  | some (.array items) => String.intercalate ", " (items.map parameter)
  | _ => ""

/-- What a function leaves unsaid by default is not shown. -/
def mutability (item : Value) : String :=
  match text? item "stateMutability" with
  | some m => if m = "nonpayable" then "" else " " ++ m
  | none => ""

def returns (item : Value) : String :=
  let outputs := parameters (item.get? "outputs")
  if outputs.isEmpty then "" else " returns (" ++ outputs ++ ")"

def describe? (item : Value) : Option String := do
  let kind ← text? item "type"
  let inputs := "(" ++ parameters (item.get? "inputs") ++ ")"
  if kind = "function" then
    let name ← text? item "name"
    some ("function " ++ name ++ inputs ++ mutability item ++ returns item)
  else if kind = "event" ∨ kind = "error" then
    let name ← text? item "name"
    some (kind ++ " " ++ name ++ inputs)
  else if kind = "constructor" then some ("constructor" ++ inputs)
  else none

end Abi

def Artifact.summary (a : Artifact) : String :=
  String.join ((a.abi.filterMap Abi.describe?).map fun line => "  " ++ line ++ "\n")

namespace Hover

def fence : String := "\x60\x60\x60"

def heading : String := "**Embedded Solidity**\n\n"

def nameContents (name : String) (a : Artifact) : String :=
  fence ++ "solidity\ncontract " ++ name ++ "\n" ++ a.summary ++ fence

def markerContents : Outcome → String
  | .compiled held =>
    heading ++ String.join (held.unit.contractNames.map fun name => "- \x60" ++ name ++ "\x60\n") ++
      "\nkey \x60" ++ held.unit.key ++ "\x60"
  | .failed diagnostics =>
    heading ++ "compilation failed (" ++ toString (diagnostics.countP Diagnostic.isError) ++
      " error(s))"
  | .crashed message => heading ++ "compiler failed to run: " ++ message
  | .unresolved => heading ++ "not statically resolvable; compiled at runtime"

def ofMarker? (s : SiteAnalysis) (offset : Nat) : Option Hover :=
  if s.site.marker.touches offset then some ⟨s.site.marker, markerContents s.outcome⟩ else none

/-- The hover of the first site whose name or marker touches an offset. A touched name without a
contract has none, and nothing else is looked at. -/
def ofSites? (offset : Nat) : List SiteAnalysis → Option Hover
  | [] => none
  | s :: rest =>
    match s.site.name with
    | some name =>
      if name.span.touches offset then
        s.namedArtifact?.map fun a => ⟨name.span, nameContents name.value a⟩
      else (ofMarker? s offset).or (ofSites? offset rest)
    | none => (ofMarker? s offset).or (ofSites? offset rest)

end Hover

def hoverAt? (a : Analysis) (offset : Nat) : Option Hover := Hover.ofSites? offset a.sites

end SolidityInlay
