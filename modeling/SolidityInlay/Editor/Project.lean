import SolidityInlay.Analysis.Files
import SolidityInlay.Declarations.Render
import SolidityInlay.Discovery.Files

/-!
# Projects in an editor

A project keeps its cache alive and the declarations it derived last. Deriving them means to search
and analyze the whole project, so a derived set is handed out again, the same one, for as long as
the configuration allows. A derivation that fails changes nothing.

Main definitions: `Frontend`, `Project`, `Project.declarations`, `Project.invalidate`,
`Project.beginPass`.
-/

namespace SolidityInlay

/-- How the host files of a project are found and read. -/
structure Frontend where
  find : FileTree → Config → Path → Except MissingPath (List Path) := findHostFiles
  parse : Host.Parser := Host.Language.parse

/-- Declarations with their identity and the time they were derived at, in milliseconds. -/
structure Derived where
  id : Nat
  time : Nat
  set : DeclarationSet

/-- A project, with a compiler of states `σ`. -/
structure Project (σ : Type) where
  root : Path
  config : Config
  cache : Cache σ
  derived : Option Derived
  /-- The identity of the next declarations. -/
  nextId : Nat

namespace Project

variable {σ : Type}

def fresh (root : Path) (config : Config) (compiler : σ) (store : Option Store)
    (accesses : List Access := []) : Project σ where
  root
  config
  cache := .fresh config.compilerOptions compiler store 0 accesses
  derived := none
  nextId := 0

/-- The derived declarations, unless they are too old. -/
def current? (p : Project σ) (now : Nat) : Option Derived :=
  p.derived.filter fun d => now - d.time < p.config.refreshMs

def derive (c : Compiler σ) (t : FileTree) (now : Nat) (p : Project σ)
    (frontend : Frontend := {}) : Except MissingPath Derived × Project σ :=
  match frontend.find t p.config p.root with
  | .error missing => (.error missing, p)
  | .ok files =>
    let (analyses, cache) :=
      analyzeReadable c p.config.marker t files p.cache frontend.parse
    let derived : Derived := ⟨p.nextId, now, .build (declarationsOf analyses)⟩
    (.ok derived, { p with cache, derived := some derived, nextId := p.nextId + 1 })

def declarations (c : Compiler σ) (t : FileTree) (now : Nat) (p : Project σ)
    (frontend : Frontend := {}) : Except MissingPath Derived × Project σ :=
  match p.current? now with
  | some derived => (.ok derived, p)
  | none => p.derive c t now frontend

/-- The text of the declaration file, none if there is nothing to declare. -/
def declarationText (c : Compiler σ) (t : FileTree) (now : Nat) (p : Project σ)
    (frontend : Frontend := {}) : Except MissingPath (Option String) × Project σ :=
  let (result, p) := p.declarations c t now frontend
  (result.map fun derived => derived.set.render p.config.runtimeModule, p)

def analyzeBuffer (c : Compiler σ) (path : Path) (text : String) (p : Project σ)
    (frontend : Frontend := {}) : Except UnsupportedFile Analysis × Project σ :=
  let (result, cache) := analyze c p.config.marker path text p.cache frontend.parse
  (result, { p with cache })

def invalidate (p : Project σ) : Project σ := { p with derived := none }

def beginPass (p : Project σ) : Project σ := { p.invalidate with cache := p.cache.reset }

end Project

end SolidityInlay
