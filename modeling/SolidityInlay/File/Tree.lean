import SolidityInlay.Bytes.Basic
import SolidityInlay.File.Path

/-!
# File trees

The files and directories of a machine as a value. A place is the names from the root to an entry; a
path leads to a place by its pieces, starting at the root or at a working directory, and every piece
but the last must lead to a directory that exists. Reading and changing a tree may fail, and a
failed change changes nothing.

Main definitions: `FileTree`, `FileError`, `FileTree.placeOf`, `FileTree.readText`,
`FileTree.write`, `FileTree.makeDirectories`, `FileTree.filesBelow`.
-/

namespace SolidityInlay

abbrev FileTree.Place := List String

def FileTree.Place.leading : FileTree.Place → List FileTree.Place
  | [] => [[]]
  | name :: rest => [] :: (FileTree.Place.leading rest).map (name :: ·)

inductive Entry where
  | file (content : Bytes)
  | directory
deriving DecidableEq, Repr

inductive FileError where
  | notFound
  | notDirectory
  | isDirectory
  | alreadyExists
  | notText
  | badName
deriving DecidableEq, Repr

def FileError.message : FileError → String
  | notFound => "No such file or directory (os error 2)"
  | notDirectory => "Not a directory (os error 20)"
  | isDirectory => "Is a directory (os error 21)"
  | alreadyExists => "File exists (os error 17)"
  | notText => "stream did not contain valid UTF-8"
  | badName => "file name contained an unexpected NUL byte"

/-- Entries at their places; the root is always a directory. -/
structure FileTree where
  entries : List (FileTree.Place × Entry)
  /-- Where relative paths start. -/
  working : FileTree.Place := []
deriving Repr, Inhabited

namespace FileTree

/-! ## Places -/

def get? (t : FileTree) (place : Place) : Option Entry :=
  if place.isEmpty then some .directory
  else (t.entries.find? fun e => e.1 == place).map Prod.snd

/-- The tree without the entry at a place and all below it. -/
def erase (t : FileTree) (place : Place) : FileTree :=
  { t with entries := t.entries.filter fun e => !place.isPrefixOf e.1 }

def put (t : FileTree) (place : Place) (entry : Entry) : FileTree :=
  { t with entries := (t.entries.filter fun e => e.1 != place) ++ [(place, entry)] }

theorem get?_put_same (t : FileTree) {place : Place} (entry : Entry) (h : place ≠ []) :
    (t.put place entry).get? place = some entry := by
  have none : (t.entries.filter fun e => e.1 != place).find? (fun e => e.1 == place) = none := by
    simp
  simp [get?, put, h, List.find?_append, none]

theorem get?_put_of_ne (t : FileTree) {place other : Place} (entry : Entry) (h : other ≠ place) :
    (t.put place entry).get? other = t.get? other := by
  have kept : (t.entries.filter fun e => e.1 != place).find? (fun e => e.1 == other) =
      t.entries.find? fun e => e.1 == other := by
    rw [List.find?_filter]
    congr 1
    funext e
    by_cases same : e.1 = other <;> simp [same, h]
  simp [get?, put, List.find?_append, kept, h.symm]

def follow (t : FileTree) (here : Place) : List Text → Except FileError Place
  | [] => .ok here
  | piece :: rest =>
    match t.get? here with
    | none => .error .notFound
    | some (.file _) => .error .notDirectory
    | some .directory =>
      if piece.isEmpty || piece == ['.'] then t.follow here rest
      else if piece == ['.', '.'] then t.follow here.dropLast rest
      else t.follow (here ++ [String.ofList piece]) rest

/-- The place a path leads to; nothing need be there. -/
def placeOf (t : FileTree) (path : Path) : Except FileError Place :=
  if path.text.toList.contains '\x00' then .error .badName
  else if path.text.isEmpty then .error .notFound
  else
    t.follow (if path.isAbsolute then [] else t.working) (splitSeparators path.text.toList)

def entry (t : FileTree) (path : Path) : Except FileError Entry := do
  match t.get? (← t.placeOf path) with
  | some entry => .ok entry
  | none => .error .notFound

def isFile (t : FileTree) (path : Path) : Bool :=
  match t.entry path with
  | .ok (.file _) => true
  | _ => false

def isDirectory (t : FileTree) (path : Path) : Bool :=
  match t.entry path with
  | .ok .directory => true
  | _ => false

def pathOf (place : Place) : Path := ⟨"/" ++ String.intercalate "/" place⟩

def canonical (t : FileTree) (path : Path) : Except FileError Path := do
  let place ← t.placeOf path
  match t.get? place with
  | some _ => .ok (pathOf place)
  | none => .error .notFound

/-! ## Reading and changing -/

def readBytes (t : FileTree) (path : Path) : Except FileError Bytes := do
  match ← t.entry path with
  | .file content => .ok content
  | .directory => .error .isDirectory

def readText (t : FileTree) (path : Path) : Except FileError String := do
  match Bytes.toString? (← t.readBytes path) with
  | some text => .ok text
  | none => .error .notText

/-- Puts a file where a path leads, in a directory that exists. -/
def write (t : FileTree) (path : Path) (content : Bytes) : Except FileError FileTree :=
  match t.placeOf path with
  | .error e =>
    if e = .notFound ∧ path.text.toList.getLast? = some '/' ∧ (parentExists path) then
      .error .isDirectory
    else .error e
  | .ok place =>
    match t.get? place with
    | some .directory => .error .isDirectory
    | some (.file _) => .ok (t.put place (.file content))
    | none =>
      match t.get? place.dropLast with
      | some .directory => .ok (t.put place (.file content))
      | some (.file _) => .error .notDirectory
      | none => .error .notFound
where
  parentExists (path : Path) : Bool := (path.parent?.map t.isDirectory).getD false

def remove (t : FileTree) (path : Path) : Except FileError FileTree := do
  let place ← t.placeOf path
  match t.get? place with
  | some (.file _) => .ok (t.erase place)
  | some .directory => .error .isDirectory
  | none => .error .notFound

def makeDirectory (t : FileTree) (path : Path) : Except FileError FileTree := do
  let place ← t.placeOf path
  match t.get? place, t.get? place.dropLast with
  | some _, _ => .error .alreadyExists
  | none, some .directory => .ok (t.put place .directory)
  | none, some (.file _) => .error .notDirectory
  | none, none => .error .notFound

def ensureDirectory (t : FileTree) (path : Path) : Except FileError FileTree :=
  match t.makeDirectory path with
  | .ok t => .ok t
  | .error e => if t.isDirectory path then .ok t else .error e

/-- Makes a directory and those above it that are missing, for at most `fuel` levels. -/
def makeDirectoriesFrom (t : FileTree) : Nat → Path → Except FileError FileTree
  | 0, _ => .error .notFound
  | fuel + 1, path =>
    if path.text.isEmpty then .ok t
    else
      match t.ensureDirectory path with
      | .error .notFound =>
        match path.parent? with
        | some above => do (← t.makeDirectoriesFrom fuel above).ensureDirectory path
        | none => .error .notFound
      | result => result

def makeDirectories (t : FileTree) (path : Path) : Except FileError FileTree :=
  t.makeDirectoriesFrom (path.text.length + 1) path

/-! ## Listing -/

/-- The places of files below a place, relative to it, with their contents. -/
def filesBelow (t : FileTree) (place : Place) : List (Place × Bytes) :=
  t.entries.filterMap fun
    | (p, .file content) =>
      if place.isPrefixOf p then some (p.drop place.length, content) else none
    | (_, .directory) => none

end FileTree

end SolidityInlay
