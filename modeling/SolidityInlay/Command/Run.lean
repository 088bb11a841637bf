import SolidityInlay.Analysis.Files
import SolidityInlay.Command.Arguments
import SolidityInlay.Command.Paint
import SolidityInlay.Config.Load
import SolidityInlay.Declarations.Render
import SolidityInlay.Declarations.Write
import SolidityInlay.Discovery.Files
import SolidityInlay.Number.Total
import SolidityInlay.Store.File
import SolidityInlay.Transform.Basic

/-!
# Running commands

A run takes a file tree and the programs of the machine, and gives what it prints, its exit status
and the tree it leaves. The store of a project is read when the run starts and written when it ends.

Main definitions: `Printed`, `CommandError`, `Invocation.run`, `runArguments`.
-/

namespace SolidityInlay

structure Printed where
  stdout : String := ""
  stderr : String := ""
  status : Nat := 0
deriving DecidableEq, Repr

inductive CommandError where
  | unresolved (path : Path) (cause : FileError)
  | store (failure : StoreFailure)
  | missing (path : MissingPath)
  | analysis (failure : AnalysisFailure)
  | file (failure : FileFailure)
deriving DecidableEq, Repr

def CommandError.message : CommandError → String
  | unresolved path cause =>
    "Failed to resolve root path '" ++ path.text ++ "': " ++ cause.message
  | store failure => "Failed to open artifact store: " ++ failure.message
  | missing path => path.message
  | analysis failure => failure.message
  | file failure => failure.message

abbrev Programs := String → Option Program

/-- Why a name starts no program: one with a separator is a path, and no file of the tree may be
run. -/
def launchFailure (t : FileTree) (name : String) : String :=
  if name.toList.contains '\x00' then "nul byte found in provided data"
  else if name.toList.contains '/' then
    match t.entry ⟨name⟩ with
    | .ok _ => "Permission denied (os error 13)"
    | .error e => e.message
  else FileError.notFound.message

def Config.compiler (c : Config) (programs : Programs) (t : FileTree) : Compiler Unit :=
  .ofProgram c.solc ((programs c.solc).getD fun _ _ => .error (launchFailure t c.solc))

structure Workspace where
  root : Path
  config : Config
  compiler : Compiler Unit
  cache : Cache Unit
  files : FileTree

namespace Workspace

/-- Analyzes the host files of the project that can be read. -/
def analyze (w : Workspace) : Except CommandError (List Analysis × Workspace) := do
  let found ← (findHostFiles w.files w.config w.root).mapError .missing
  let (analyses, cache) := analyzeReadable w.compiler w.config.marker w.files found w.cache
  .ok (analyses, { w with cache })

def save (w : Workspace) : FileTree :=
  match w.cache.store with
  | some store => store.saveAt w.files w.root
  | none => w.files

end Workspace

namespace Invocation

def colored (i : Invocation) : Bool := !i.noColor

/-- What is printed when a command could not be carried out. -/
def failed (i : Invocation) (e : CommandError) : Printed where
  stderr := labelled i.colored .error e.message
  status := 2

/-! ## Opening -/

/-- The directory a command starts in, and whether the project's root is looked for from there. -/
def start (i : Invocation) : Path × Bool :=
  match i.command with
  | .check root | .types root => (root, false)
  | .transform file _ =>
    match file.parent? with
    | some directory => (if directory.text.isEmpty then ⟨"."⟩ else directory, true)
    | none => (⟨"."⟩, true)

def locate (i : Invocation) (t : FileTree) : Except CommandError (Path × Config) := do
  let (start, finding) := i.start
  let directory ← (t.canonical start).mapError (.unresolved start)
  let loaded := Config.load t directory
  let config := if i.noCache then { loaded with cache := false } else loaded
  .ok (if finding then config.projectRoot t directory else directory, config)

def banner (i : Invocation) (root : Path) (config : Config) : String :=
  if i.verbose then
    programName ++ " v" ++ programVersion ++ "\nRoot: " ++ root.text ++ "\n" ++ config.summary ++
      "\n"
  else ""

def storeLine (i : Invocation) (store : Option Store) : String :=
  match i.verbose, store with
  | true, some store =>
    "   Store: " ++ toString store.stats.entries ++ " entries, " ++
      sizeText store.stats.bytes ++ "\n"
  | _, _ => ""

/-- The store of the project if one is wanted, and the tree it is in. -/
def openStore (root : Path) (config : Config) (t : FileTree) :
    Except CommandError (Option Store × FileTree) :=
  if config.cache then
    ((Store.openAt t root).mapError .store).map fun (store, t) => (some store, t)
  else .ok (none, t)

/-! ## Commands -/

/-- Reports every diagnostic of the project, and how many there are. -/
def check (i : Invocation) (w : Workspace) : Printed × Workspace :=
  match w.analyze with
  | .error e => (i.failed e, w)
  | .ok (analyses, w) =>
    let set := DeclarationSet.build (declarationsOf analyses)
    let reports := analyses.map fun a => (a, hostDiagnostics a (some set))
    let lines := reports.flatMap fun (a, diagnostics) =>
      let file := match a.path.below? w.root with
        | some rest => Path.ofComponents rest
        | none => a.path.text
      diagnostics.map (diagnosticLines i.colored file (.ofString a.text))
    let count (severity : Severity) : Nat :=
      (reports.flatMap Prod.snd).countP fun d => d.severity == severity
    let errors := count .error
    let summary := toString analyses.length ++ " file(s), " ++
      toString (total (analyses.map fun a => a.sites.length)) ++ " site(s): " ++ toString errors ++
      " error(s), " ++ toString (count .warning) ++ " warning(s)"
    let last := if 0 < errors then paint i.colored .error summary else summary
    ({ stdout := String.join lines ++ last ++ "\n", status := if 0 < errors then 1 else 0 }, w)

/-- The warning about a name that is declared again with another interface. -/
def duplicateLine (i : Invocation) (d : Duplicate) : String :=
  labelled i.colored .warning ("contract name \"" ++ d.name ++ "\" in " ++
    d.conflicting.file.text ++ " differs from " ++ d.first.file.text ++ "; keeping the first")

def outcomeVerb : WriteOutcome → String
  | .written => "wrote"
  | .unchanged => "unchanged"
  | .removed => "removed"
  | .absent => "nothing to declare for"

def types (i : Invocation) (w : Workspace) : Printed × Workspace :=
  match w.analyze with
  | .error e => (i.failed e, w)
  | .ok (analyses, w) =>
    let set := DeclarationSet.build (declarationsOf analyses)
    let warnings := String.join (set.duplicates.map i.duplicateLine)
    let path := w.root.join w.config.declarations.text
    match writeDeclarations w.files path (set.render w.config.runtimeModule) with
    | .error failure =>
      let printed := i.failed (.file failure)
      ({ printed with stderr := warnings ++ printed.stderr }, w)
    | .ok (outcome, files) =>
      ({ stdout := outcomeVerb outcome ++ " " ++ path.text ++ " (" ++
          toString set.entries.length ++ " contract(s))\n", stderr := warnings },
        { w with files })

/-- Prints a file with its sites replaced, and writes the source map if one is wanted. -/
def transform (i : Invocation) (file : Path) (sourceMap : Option Path) (w : Workspace) :
    Printed × Workspace :=
  let (result, cache) := analyzePath w.compiler w.config.marker w.files file w.cache
  let w := { w with cache }
  match result with
  | .error failure => (i.failed (.analysis failure), w)
  | .ok analysis =>
    match SolidityInlay.transform w.config.runtimeModule analysis with
    | .error e =>
      ({ stderr := labelled i.colored .error (file.text ++ ": " ++ e.message), status := 1 }, w)
    | .ok none => ({ stdout := analysis.text }, w)
    | .ok (some output) =>
      match sourceMap with
      | none => ({ stdout := output.code }, w)
      | some path =>
        match acting .write path (w.files.write path (Bytes.ofString output.map.json.compact)) with
        | .ok files => ({ stdout := output.code }, { w with files })
        | .error failure => ({ i.failed (.file failure) with stdout := output.code }, w)

def perform (i : Invocation) (w : Workspace) : Printed × Workspace :=
  match i.command with
  | .check _ => i.check w
  | .types _ => i.types w
  | .transform file sourceMap => i.transform file sourceMap w

def run (programs : Programs) (t : FileTree) (i : Invocation) : Printed × FileTree :=
  match i.locate t with
  | .error e => (i.failed e, t)
  | .ok (root, config) =>
    let banner := i.banner root config
    match openStore root config t with
    | .error e =>
      let printed := i.failed e
      ({ printed with stderr := banner ++ printed.stderr }, t)
    | .ok (store, files) =>
      let (printed, w) := i.perform
        { root, config, files
          compiler := config.compiler programs t
          cache := .fresh config.compilerOptions () store 0 }
      ({ printed with stderr := banner ++ i.storeLine store ++ printed.stderr }, w.save)

end Invocation

def Refusal.printed : Refusal → Printed
  | help name => { stdout := helpText name }
  | version => { stdout := programName ++ " " ++ programVersion ++ "\n" }
  | wrong name problem =>
    { stderr := "error: " ++ problem ++ "\n\n" ++ usageLine name ++
        "\nFor more information, try '--help'.\n", status := 2 }

def runArguments (programs : Programs) (t : FileTree) (arguments : List String) :
    Printed × FileTree :=
  match Invocation.parse arguments with
  | .ok i => i.run programs t
  | .error refusal => (refusal.printed, t)

end SolidityInlay
