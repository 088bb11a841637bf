import SolidityInlay.Ignore.Pattern
import SolidityInlay.Text.Classes

/-!
# Rules of ignore files

An ignore file has a rule a line. A rule ignores what its pattern matches, or keeps it after `!`; a
pattern that ends in a separator is for directories only; a pattern with a separator elsewhere
matches the path from the file's directory, and any other matches at every depth. Of several rules
that match, the last decides.

Main definitions: `Ignore.Rule`, `Ignore.Rule.parse?`, `Ignore.rulesOf`, `Ignore.verdict`.
-/

namespace SolidityInlay.Ignore

inductive Verdict where
  | ignore
  | keep
deriving DecidableEq, Repr

structure Rule where
  verdict : Verdict
  directoriesOnly : Bool
  sequences : List (List Atom)
deriving Repr

def trimEnd (cs : Text) : Text := (cs.reverse.dropWhile isWhiteSpace).reverse

def endsWith (cs ending : Text) : Bool := ending.reverse.isPrefixOf cs.reverse

/-- A line without what makes it a rule: the verdict, whether it starts with a separator, and the
rest. -/
def lineParts (line : Text) : Verdict × Bool × Text :=
  match line with
  | '\\' :: '!' :: rest => (.ignore, false, '!' :: rest)
  | '\\' :: '#' :: rest => (.ignore, false, '#' :: rest)
  | _ =>
    let (verdict, line) := match line with
      | '!' :: rest => (Verdict.keep, rest)
      | _ => (.ignore, line)
    match line with
    | '/' :: rest => (verdict, true, rest)
    | _ => (verdict, false, line)

/-- A pattern without a separator at its end, and whether it had one, which may have been escaped.
-/
def directoryPart (line : Text) : Text × Bool :=
  match line.reverse with
  | '/' :: '\\' :: rest => (rest.reverse, true)
  | '/' :: rest => (rest.reverse, true)
  | _ => (line, false)

def wholePattern (anchored : Bool) (line : Text) : Text :=
  let line :=
    if anchored || line.contains '/' || line == ['*', '*'] then line else '*' :: '*' :: '/' :: line
  if endsWith line ['/', '*', '*'] then line ++ ['/', '*'] else line

def Rule.parse? (line : Text) : Option Rule :=
  if line.head? == some '#' then none
  else
    let line := if endsWith line ['\\', ' '] then line else trimEnd line
    if line.isEmpty then none
    else
      let (verdict, anchored, rest) := lineParts line
      let (pattern, directoriesOnly) := directoryPart rest
      (parseTokens? (wholePattern anchored pattern)).map fun tokens =>
        ⟨verdict, directoriesOnly, spread tokens⟩

/-- The lines of a file, without their ends. -/
def splitLines : Bytes → List Bytes
  | [] => []
  | b :: rest =>
    if b == 0x0A then [] :: splitLines rest
    else
      match splitLines rest with
      | [] => [[b]]
      | line :: more => (b :: line) :: more

/-- A line without a carriage return at its end. -/
def dropReturn (line : Bytes) : Bytes :=
  if line.getLast? == some 0x0D then line.dropLast else line

/-- The texts of lines up to the first that is no text. -/
def readableLines (lines : List Bytes) : List Text :=
  ((lines.map fun line => Bytes.toString? (dropReturn line)).takeWhile Option.isSome).filterMap
    fun line => line.map String.toList

/-- The rules of an ignore file, which may begin with byte order marks. -/
def rulesOf (content : Bytes) : List Rule :=
  match readableLines (splitLines content) with
  | [] => []
  | first :: rest => (first.dropWhile (· == '\uFEFF') :: rest).filterMap Rule.parse?

/-- What the last rule that matches says of a path relative to the rules' directory. -/
def verdict (rules : List Rule) (path : Bytes) (isDirectory : Bool) : Option Verdict :=
  (rules.reverse.find? fun rule =>
    (isDirectory || !rule.directoriesOnly) && rule.sequences.any (matchAtoms · path)).map
    Rule.verdict

end SolidityInlay.Ignore
