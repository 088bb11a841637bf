import SolidityInlay.File.Tree
import SolidityInlay.Store.Basic

/-!
# The store's file

The rows of a store in one file: a mark that tells the format, then the rows one after another. An
empty file is an empty store.

Main definitions: `Store.encode`, `Store.decode?`, `Store.openAt`, `Store.saveAt`.
-/

namespace SolidityInlay

namespace Store

def formatMark : Bytes := Bytes.ofString "inlay rows 1\n"

def rowsCodec : Codec (List (String × Bytes)) := .list (.pair .string (.list .byte))

def encode (s : Store) : Bytes := formatMark ++ rowsCodec.write s.rows.entries

def decode? (content : Bytes) : Option Store :=
  if content.isEmpty then some empty
  else if formatMark.isPrefixOf content then
    (rowsCodec.read (content.drop formatMark.length)).map fun (rows, _) => ⟨.ofList rows⟩
  else none

def directoryName : String := ".sol-embed.cache"

def fileName : String := "artifacts.redb"

def pathIn (root : Path) : Path := (root.join directoryName).join fileName

end Store

inductive StoreFailure where
  | directory (path : Path) (cause : FileError)
  | file (path : Path) (cause : FileError)
  /-- The file is that of no store. -/
  | malformed (path : Path)
deriving DecidableEq, Repr

def StoreFailure.message : StoreFailure → String
  | directory path cause =>
    "Failed to create cache directory: " ++ path.text ++ ": " ++ cause.message
  | file path cause =>
    "Failed to open artifact store: " ++ path.text ++ ": I/O error: " ++ cause.message
  | malformed path => "Failed to open artifact store: " ++ path.text ++ ": I/O error: invalid data"

namespace Store

/-- Opens the store of a project, which is made if there is none. -/
def openAt (t : FileTree) (root : Path) : Except StoreFailure (Store × FileTree) := do
  let directory := root.join directoryName
  let path := pathIn root
  let t ← (t.makeDirectories directory).mapError (.directory directory)
  match t.readBytes path with
  | .error .notFound => do
    .ok (empty, ← (t.write path empty.encode).mapError (.file path))
  | .error cause => .error (.file path cause)
  | .ok content =>
    match decode? content with
    | some store => .ok (store, t)
    | none => .error (.malformed path)

/-- Writes the store of a project to its file, if its directory is still there. -/
def saveAt (s : Store) (t : FileTree) (root : Path) : FileTree :=
  match t.write (pathIn root) s.encode with
  | .ok t => t
  | .error _ => t

end Store

end SolidityInlay
