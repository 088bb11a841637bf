import SolidityInlay.File.Tree

/-!
# Failed file operations

What was to be done to which file, and why it failed.

Main definitions: `FileFailure`, `acting`.
-/

namespace SolidityInlay

inductive FileAction where
  | read
  | create
  | write
  | remove
deriving DecidableEq, Repr

def FileAction.verb : FileAction → String
  | read => "read"
  | create => "create"
  | write => "write"
  | remove => "remove"

structure FileFailure where
  action : FileAction
  path : Path
  cause : FileError
deriving DecidableEq, Repr

namespace FileFailure

/-- What failed, without why. -/
def summary (f : FileFailure) : String := "Failed to " ++ f.action.verb ++ " " ++ f.path.text

def message (f : FileFailure) : String := f.summary ++ ": " ++ f.cause.message

end FileFailure

def acting {α : Type} (action : FileAction) (path : Path) (result : Except FileError α) :
    Except FileFailure α :=
  result.mapError (⟨action, path, ·⟩)

end SolidityInlay
