import SolidityInlay.File.Failure

/-!
# The declaration file

A declaration file is written only if its text changes, and removed when there is nothing to
declare.

Main definitions: `writeDeclarations`, `WriteOutcome`.
-/

namespace SolidityInlay

inductive WriteOutcome where
  | written
  | unchanged
  | removed
  | absent
deriving DecidableEq, Repr

/-- The text of a file, none if there is no file. -/
def existingText (t : FileTree) (path : Path) : Except FileFailure (Option String) :=
  match t.readText path with
  | .ok text => .ok (some text)
  | .error .notFound => .ok none
  | .error cause => .error ⟨.read, path, cause⟩

/-- Writes a text to a file and makes the directories it is in. -/
def writeWithDirectories (t : FileTree) (path : Path) (text : String) :
    Except FileFailure FileTree := do
  let t ← match path.parent? with
    | some above => acting .create above (t.makeDirectories above)
    | none => .ok t
  acting .write path (t.write path (Bytes.ofString text))

def writeDeclarations (t : FileTree) (path : Path) (content : Option String) :
    Except FileFailure (WriteOutcome × FileTree) := do
  match content, ← existingText t path with
  | none, none => .ok (.absent, t)
  | none, some _ => do .ok (.removed, ← acting .remove path (t.remove path))
  | some new, old =>
    if old = some new then .ok (.unchanged, t)
    else do .ok (.written, ← writeWithDirectories t path new)

end SolidityInlay
