import SolidityInlay.Config.Files
import SolidityInlay.File.Tree
import SolidityInlay.Host.Language
import SolidityInlay.Ignore.Rules

/-!
# Finding host files

The host files below a directory are those that no ignore file hides and the configuration admits.
Ignore files act on what is in their directory and below it; an inner one goes before an outer one,
and `.ignore` before `.gitignore` before the excludes of a repository. A file in an ignored
directory is hidden whatever rules say of the file itself.

The excludes file that a user's own git settings name, which would speak after all of these, lies
outside the tree of files and is left out: the files found are those of a user without one.

Main definitions: `isHostSource`, `isHidden`, `findHostFiles`.
-/

namespace SolidityInlay

def declarationEndings : List String := [".d.ts", ".d.mts", ".d.cts"]

/-- Whether a path is that of a host file other than a declaration file. -/
def isHostSource (path : Path) : Bool :=
  let isDeclaration := match path.fileName? with
    | some name => declarationEndings.any fun ending => name.endsWith ending
    | none => false
  !isDeclaration && (Host.Language.ofPath? path).isSome

/-- Ignore files of a directory, the first that says anything wins. -/
def ignoreFiles : List FileTree.Place := [[".ignore"], [".gitignore"], [".git", "info", "exclude"]]

/-- What the ignore files of one name, from the inside out, say of an entry. -/
def verdictBy (t : FileTree) (file : FileTree.Place) (entry : FileTree.Place) (isDirectory : Bool) :
    Option Ignore.Verdict :=
  (FileTree.Place.leading entry.dropLast).reverse.findSome? fun directory =>
    match t.get? (directory ++ file) with
    | some (.file content) =>
      Ignore.verdict (Ignore.rulesOf content)
        (Bytes.ofString (String.intercalate "/" (entry.drop directory.length))) isDirectory
    | _ => none

/-- Whether an entry is ignored by itself. -/
def isIgnored (t : FileTree) (entry : FileTree.Place) (isDirectory : Bool) : Bool :=
  ignoreFiles.findSome? (fun file => verdictBy t file entry isDirectory) == some .ignore

/-- Whether a file below a root is ignored or in an ignored directory below that root. -/
def isHidden (t : FileTree) (root relative : FileTree.Place) : Bool :=
  isIgnored t (root ++ relative) false ||
    ((FileTree.Place.leading relative.dropLast).drop 1).any fun directory =>
      isIgnored t (root ++ directory) true

structure MissingPath where
  path : Path
deriving DecidableEq, Repr

def MissingPath.message (m : MissingPath) : String := "Path does not exist: " ++ m.path.text

/-- The host files at or below a path, in the order of their paths. A path to a file is taken as it
is. -/
def findHostFiles (t : FileTree) (c : Config) (path : Path) : Except MissingPath (List Path) :=
  match t.placeOf path with
  | .error _ => .error ⟨path⟩
  | .ok root =>
    match t.get? root with
    | none => .error ⟨path⟩
    | some (.file _) => .ok (if isHostSource path then [path] else [])
    | some .directory =>
      let found := (t.filesBelow root).filterMap fun (relative, _) =>
        let name := String.intercalate "/" relative
        let file := path.join name
        if isHostSource file && c.admits name && !isHidden t root relative then some file else none
      .ok (found.mergeSort Path.le)

end SolidityInlay
