import SolidityInlay.Command.Run

/-!
# The command line

Reads the files that a command can reach into a tree, runs the command on it, prints what it prints
and writes back what it changed. No program is ever started from here: every compiler is one that
fails to launch, so only sources whose units are in the store compile.

Main definition: `main`.
-/

namespace SolidityInlay.CommandLine

/-- Files of a directory above the project that a command may look at. -/
def knownFiles : List FileTree.Place :=
  [["package.json"], ["sol-embed.toml"], [".ignore"], [".gitignore"], [".git", "info", "exclude"],
    [Store.directoryName, Store.fileName]]

def textOf (place : FileTree.Place) : String := (FileTree.pathOf place).text

/-- The file at a place with the directories above it, if there is one. -/
def readFile (place : FileTree.Place) : IO (List (FileTree.Place × Entry)) := do
  try
    let content ← IO.FS.readBinFile (textOf place)
    let above := ((FileTree.Place.leading place.dropLast).drop 1).map fun p => (p, Entry.directory)
    return above ++ [(place, .file content.data.toList)]
  catch _ => return []

/-- What is in a directory, for at most `depth` levels. -/
def readDirectory (place : FileTree.Place) : Nat → IO (List (FileTree.Place × Entry))
  | 0 => return []
  | depth + 1 => do
    try
      let entries ← (← IO.FS.realPath (textOf place)).readDir
      let found ← entries.toList.mapM fun e => do
        let inner := place ++ [e.fileName]
        if ← e.path.isDir then
          return (inner, Entry.directory) :: (← readDirectory inner depth)
        else readFile inner
      return found.flatten
    catch _ => return []

def distinct (entries : List (FileTree.Place × Entry)) : List (FileTree.Place × Entry) :=
  entries.foldl (fun kept e => if kept.any fun k => k.1 == e.1 then kept else kept ++ [e]) []

def realPlace (path : String) : IO FileTree.Place := do
  let text := (← IO.FS.realPath path).toString
  return ((text.splitOn "/").filter fun name => !name.isEmpty)

def readAround (path : String) (depth : Nat) : IO (List (FileTree.Place × Entry)) := do
  try
    let place ← realPlace path
    let levels := FileTree.Place.leading place
    let known ← levels.mapM fun level => knownFiles.mapM fun file => readFile (level ++ file)
    let directories := (levels.drop 1).map fun level => (level, Entry.directory)
    return directories ++ known.flatten.flatten ++ (← readDirectory place depth)
  catch _ => return []

def readTree (i : Invocation) : IO FileTree := do
  let working ← realPlace "."
  let around ← readAround "." 1
  let entries ← match i.command with
    | .check root | .types root => readAround root.text 100
    | .transform _ sourceMap => do
      let map ← match sourceMap.bind Path.parent? with
        | some directory => readAround (if directory.text.isEmpty then "." else directory.text) 1
        | none => pure []
      let near ← readAround i.start.1.text 1
      pure (near ++ map)
  return { entries := distinct (around ++ entries), working }

/-- Makes the files of the machine those of a tree, where it differs from another. -/
def writeChanges (old new : FileTree) : IO Unit := do
  for (place, entry) in new.entries do
    if old.get? place != some entry then
      match entry with
      | .directory => IO.FS.createDirAll (textOf place)
      | .file content => IO.FS.writeBinFile (textOf place) ⟨content.toArray⟩
  for (place, entry) in old.entries do
    match entry, new.get? place with
    | .file _, none => IO.FS.removeFile (textOf place)
    | _, _ => pure ()

def runProgram (arguments : List String) : IO UInt32 := do
  let printed ← match Invocation.parse arguments with
    | .error refusal => pure refusal.printed
    | .ok i => do
      let tree ← readTree i
      let (printed, changed) := i.run (fun _ => none) tree
      writeChanges tree changed
      pure printed
  IO.print printed.stdout
  IO.eprint printed.stderr
  return UInt32.ofNat printed.status

end SolidityInlay.CommandLine

def main (arguments : List String) : IO UInt32 := SolidityInlay.CommandLine.runProgram arguments
