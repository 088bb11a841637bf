import SolidityInlay.Analysis.Basic
import SolidityInlay.Json.Printer

/-!
# Declarations

The named contracts of a project. The first site of a name declares it; a later site of the same
name with another interface is a duplicate. Interfaces are compared by their JSON text.

Main definitions: `Declaration`, `DeclarationSet`, `DeclarationSet.build`, `declarationsOf`.
-/

namespace SolidityInlay

/-- Where a name is given: the file, and the name's literal with its quotes. -/
structure DeclaredAt where
  file : Path
  span : Span
deriving DecidableEq, Repr

structure Declaration where
  name : String
  abi : List Json.Value
  origin : DeclaredAt
deriving Repr

def Declaration.signature (d : Declaration) : String := (Json.Value.array d.abi).compact

/-- A name given again to another interface. -/
structure Duplicate where
  name : String
  first : DeclaredAt
  conflicting : DeclaredAt
deriving DecidableEq, Repr

/-- The declarations of a project, each name once, and the duplicates. -/
structure DeclarationSet where
  entries : List Declaration
  duplicates : List Duplicate
deriving Repr

namespace DeclarationSet

def empty : DeclarationSet := ⟨[], []⟩

def get? (set : DeclarationSet) (name : String) : Option Declaration :=
  set.entries.find? fun d => d.name == name

def add (set : DeclarationSet) (d : Declaration) : DeclarationSet :=
  match set.get? d.name with
  | none => { set with entries := set.entries ++ [d] }
  | some first =>
    if first.signature = d.signature then set
    else { set with duplicates := set.duplicates ++ [⟨d.name, first.origin, d.origin⟩] }

/-- The set of declarations in order. -/
def build (declarations : List Declaration) : DeclarationSet := declarations.foldl add empty

def isEmpty (set : DeclarationSet) : Bool := set.entries.isEmpty

/-- The names with duplicates, each once, in the order of their first duplicate. -/
def duplicateNames (set : DeclarationSet) : List String :=
  set.duplicates.foldl
    (fun names d => if names.contains d.name then names else names ++ [d.name]) []

end DeclarationSet

/-- The declaration of a site that is named, compiled, and has a contract of its name. -/
def SiteAnalysis.declaration? (file : Path) (s : SiteAnalysis) : Option Declaration := do
  let name ← s.site.name
  let artifact ← s.namedArtifact?
  some ⟨name.value, artifact.abi, ⟨file, name.span⟩⟩

/-- The declarations of files in order. -/
def declarationsOf (analyses : List Analysis) : List Declaration :=
  analyses.flatMap fun a => a.sites.filterMap (SiteAnalysis.declaration? a.path)

end SolidityInlay
