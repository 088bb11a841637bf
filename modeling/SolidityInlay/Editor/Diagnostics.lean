import SolidityInlay.Declarations.Basic
import SolidityInlay.Text.LineIndex

/-!
# Diagnostics in host text

What is to be reported about a host file, at ranges of the host text: what the compiler said, moved
to where the text comes from, compilers that could not run, names without a contract, and duplicate
names.

Main definitions: `HostDiagnostic`, `hostDiagnostics`.
-/

namespace SolidityInlay

inductive DiagnosticCode where
  | compiler
  | compilerCrash
  | unknownName
  | duplicateName
deriving DecidableEq, Repr

def DiagnosticCode.label : DiagnosticCode → String
  | compiler => "solc"
  | compilerCrash => "solc-crash"
  | unknownName => "unknown-name"
  | duplicateName => "duplicate-name"

structure HostDiagnostic where
  severity : Severity
  code : DiagnosticCode
  message : String
  span : Span
deriving DecidableEq, Repr

namespace HostDiagnostic

def isError (d : HostDiagnostic) : Bool := d.severity == .error

/-- The compiler's diagnostic at its place in the host text; the whole template if it has none. -/
def ofDiagnostic (site : Site) (d : Diagnostic) : HostDiagnostic where
  severity := d.severity
  code := .compiler
  message := d.message
  span :=
    match PositionMap.ofSite? site, d.span with
    | some map, some span => map.mapSpan span
    | _, _ => site.template

/-- Says that a site's name is none of its contracts. -/
def ofUnknownName (name : SiteName) (available : List String) : HostDiagnostic where
  severity := .error
  code := .unknownName
  message := "Contract \"" ++ name.value ++ "\" is not defined in this source (available: " ++
    (if available.isEmpty then "none" else String.intercalate ", " available) ++ ")"
  span := name.span

def ofCrash (site : Site) (message : String) : HostDiagnostic where
  severity := .error
  code := .compilerCrash
  message := "Solidity compiler failed to run: " ++ message
  span := site.span

def ofSite (s : SiteAnalysis) : List HostDiagnostic :=
  match s.outcome with
  | .unresolved => []
  | .failed diagnostics => diagnostics.map (ofDiagnostic s.site)
  | .crashed message => [ofCrash s.site message]
  | .compiled held =>
    held.unit.diagnostics.map (ofDiagnostic s.site) ++
      match s.site.name with
      | none => []
      | some name =>
        if held.unit.contracts.contains name.value then []
        else [ofUnknownName name held.unit.contractNames]

/-- Where a duplicate's first declaration is, as seen from a file. -/
def firstPlace (a : Analysis) (d : Duplicate) : String :=
  if d.first.file.same a.path then
    "line " ++ (LineIndex.ofString a.text).display d.first.span.start
  else d.first.file.text

/-- Says that a name is declared elsewhere with another interface. -/
def ofDuplicate (a : Analysis) (d : Duplicate) : HostDiagnostic where
  severity := .warning
  code := .duplicateName
  message := "Contract name \"" ++ d.name ++ "\" is already declared with a different ABI (" ++
    firstPlace a d ++ "); that declaration is used"
  span := d.conflicting.span

def ofDuplicates (a : Analysis) (set : DeclarationSet) : List HostDiagnostic :=
  (set.duplicates.filter fun d => d.conflicting.file.same a.path).map (ofDuplicate a)

end HostDiagnostic

/-- Everything to be reported about a file, in the order of the text. Duplicates are reported if the
project's declarations are given. -/
def hostDiagnostics (a : Analysis) (declarations : Option DeclarationSet) : List HostDiagnostic :=
  let own := a.sites.flatMap HostDiagnostic.ofSite
  let duplicates := (declarations.map (HostDiagnostic.ofDuplicates a)).getD []
  (own ++ duplicates).mergeSort fun d e => d.span.le e.span

/-- The host's diagnostics with those of this library after them. -/
def augmentDiagnostics (host ours : List HostDiagnostic) : List HostDiagnostic := host ++ ours

end SolidityInlay
