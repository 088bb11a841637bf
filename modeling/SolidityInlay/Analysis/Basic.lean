import SolidityInlay.Cache.Basic
import SolidityInlay.File.Path
import SolidityInlay.Host.Language
import SolidityInlay.Site.Scan
import SolidityInlay.Site.PositionMap

/-!
# Analysis of a host file

The sites of a host file, each with what came of it. A compiler that could not run is the outcome of
that one site, so it never hides what is known of the others.

Main definitions: `Outcome`, `SiteAnalysis`, `Analysis`, `analyze`.
-/

namespace SolidityInlay

inductive Outcome where
  /-- A substitution has no known value; the site is left to the runtime. -/
  | unresolved
  | compiled (held : HeldUnit)
  /-- The compiler reported an error. -/
  | failed (diagnostics : List Diagnostic)
  /-- The compiler could not run. -/
  | crashed (message : String)
deriving Repr

structure SiteAnalysis where
  site : Site
  outcome : Outcome
deriving Repr

namespace SiteAnalysis

def unit? (s : SiteAnalysis) : Option CompiledUnit :=
  match s.outcome with
  | .compiled held => some held.unit
  | _ => none

def namedArtifact? (s : SiteAnalysis) : Option Artifact := do
  let unit ← s.unit?
  let name ← s.site.name
  unit.contract? name.value

/-- The site compiled, but to no contract of its name. -/
def hasUnknownName (s : SiteAnalysis) : Bool :=
  match s.unit?, s.site.name with
  | some unit, some name => (unit.contract? name.value).isNone
  | _, _ => false

/-- The site stands in the way of a build. -/
def isBroken (s : SiteAnalysis) : Bool :=
  match s.outcome with
  | .failed _ | .crashed _ => true
  | _ => s.hasUnknownName

end SiteAnalysis

/-- A host file and its sites in order. -/
structure Analysis where
  path : Path
  text : String
  language : Host.Language
  sites : List SiteAnalysis
deriving Repr

namespace Analysis

/-- The site that touches an offset. -/
def siteAt? (a : Analysis) (offset : Nat) : Option SiteAnalysis :=
  a.sites.find? fun s => s.site.span.touches offset

def hasErrors (a : Analysis) : Bool := a.sites.any SiteAnalysis.isBroken

end Analysis

structure UnsupportedFile where
  path : Path
deriving DecidableEq, Repr

def UnsupportedFile.message (e : UnsupportedFile) : String :=
  "unsupported host file type: " ++ e.path.text

variable {σ : Type}

def compileSite (c : Compiler σ) (cache : Cache σ) (site : Site) : Outcome × Cache σ :=
  match site.source with
  | none => (.unresolved, cache)
  | some source =>
    match cache.compile c source with
    | (.ok (.compiled held), cache) => (.compiled held, cache)
    | (.ok (.failed diagnostics), cache) => (.failed diagnostics, cache)
    | (.error e, cache) => (.crashed e.message, cache)

def compileSites (c : Compiler σ) (cache : Cache σ) : List Site → List SiteAnalysis × Cache σ
  | [] => ([], cache)
  | site :: rest =>
    let (outcome, cache) := compileSite c cache site
    let (more, cache) := compileSites c cache rest
    (⟨site, outcome⟩ :: more, cache)

def analyze (c : Compiler σ) (marker : String) (path : Path) (text : String) (cache : Cache σ)
    (parse : Host.Parser := Host.Language.parse) : Except UnsupportedFile Analysis × Cache σ :=
  match Host.Language.ofPath? path with
  | none => (.error ⟨path⟩, cache)
  | some language =>
    let (sites, cache) := compileSites c cache (Site.scan marker (parse language text))
    (.ok ⟨path, text, language, sites⟩, cache)

theorem map_site_compileSites (c : Compiler σ) (cache : Cache σ) (sites : List Site) :
    (compileSites c cache sites).1.map SiteAnalysis.site = sites := by
  induction sites generalizing cache with
  | nil => rfl
  | cons site rest ih => simp [compileSites, ih]

/-- An analysis has what came of the sites that the parser finds in the text. -/
theorem sites_of_analyze {c : Compiler σ} {cache : Cache σ} {marker text : String} {path : Path}
    {parse : Host.Parser} {a : Analysis}
    (analyzed : (analyze c marker path text cache parse).1 = .ok a) :
    a.text = text ∧ ∃ language, Host.Language.ofPath? path = some language ∧
      a.sites = (compileSites c cache (Site.scan marker (parse language text))).1 := by
  unfold analyze at analyzed
  split at analyzed
  · cases analyzed
  · next language supported =>
    cases analyzed
    exact ⟨rfl, language, supported, rfl⟩

end SolidityInlay
