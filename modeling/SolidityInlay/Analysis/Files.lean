import SolidityInlay.Analysis.Basic
import SolidityInlay.File.Failure

/-!
# Analysis of files in a tree

Files are read and analyzed one after another; one that fails does not affect the others.

Main definitions: `AnalysisFailure`, `analyzePath`, `analyzeFiles`, `analyzeReadable`.
-/

namespace SolidityInlay

inductive AnalysisFailure where
  | unreadable (failure : FileFailure)
  | unsupported (file : UnsupportedFile)
deriving DecidableEq, Repr

def AnalysisFailure.message : AnalysisFailure → String
  | unreadable failure => failure.message
  | unsupported file => "Failed to analyze " ++ file.path.text ++ ": " ++ file.message

variable {σ : Type}

def analyzePath (c : Compiler σ) (marker : String) (t : FileTree) (path : Path) (cache : Cache σ)
    (parse : Host.Parser := Host.Language.parse) : Except AnalysisFailure Analysis × Cache σ :=
  match acting .read path (t.readText path) with
  | .error failure => (.error (.unreadable failure), cache)
  | .ok text =>
    let (result, cache) := analyze c marker path text cache parse
    (result.mapError .unsupported, cache)

/-- Reads and analyzes files in order. -/
def analyzeFiles (c : Compiler σ) (marker : String) (t : FileTree) (files : List Path)
    (cache : Cache σ) (parse : Host.Parser := Host.Language.parse) :
    List (Except AnalysisFailure Analysis) × Cache σ :=
  match files with
  | [] => ([], cache)
  | path :: rest =>
    let (result, cache) := analyzePath c marker t path cache parse
    let (results, cache) := analyzeFiles c marker t rest cache parse
    (result :: results, cache)

def analyzeReadable (c : Compiler σ) (marker : String) (t : FileTree) (files : List Path)
    (cache : Cache σ) (parse : Host.Parser := Host.Language.parse) : List Analysis × Cache σ :=
  let (results, cache) := analyzeFiles c marker t files cache parse
  (results.filterMap Except.toOption, cache)

end SolidityInlay
