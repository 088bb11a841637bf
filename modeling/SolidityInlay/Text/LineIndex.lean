import SolidityInlay.Text.Basic

/-!
# Lines and columns

Byte offsets as lines and columns and back. A line ends with its newline. Columns count UTF-16
units, as editors do; lines and columns start at zero, except where they are shown to people.

Main definitions: `LineIndex`, `LineIndex.position`, `LineIndex.offset?`, `LineIndex.lineText`.
-/

namespace SolidityInlay

structure Position where
  line : Nat
  column : Nat
deriving DecidableEq, Repr

namespace Text

def charUnits (c : Char) : Nat := if c.toNat < 0x10000 then 1 else 2

/-- The units of the characters that start within the first `n` bytes. -/
def unitsWithin : Nat → Text → Nat
  | 0, _ => 0
  | _ + 1, [] => 0
  | n + 1, c :: cs => charUnits c + unitsWithin (n + 1 - c.utf8Size) cs

/-- The bytes of the characters that start within the first `k` units. -/
def bytesWithin : Nat → Text → Nat
  | 0, _ => 0
  | _ + 1, [] => 0
  | k + 1, c :: cs => c.utf8Size + bytesWithin (k + 1 - charUnits c) cs

/-- The offsets right after the newlines of a text that begins at `offset`. -/
def startsAfterNewlines (offset : Nat) : Text → List Nat
  | [] => []
  | c :: cs =>
    if c == '\n' then (offset + 1) :: startsAfterNewlines (offset + 1) cs
    else startsAfterNewlines (offset + c.utf8Size) cs

/-- The text without the given character at its end. -/
def trimEnd (c : Char) (cs : Text) : Text := (cs.reverse.dropWhile (· == c)).reverse

end Text

structure LineIndex where
  text : Text
  starts : List Nat
deriving DecidableEq, Repr

namespace LineIndex

def ofText (text : Text) : LineIndex := ⟨text, 0 :: text.startsAfterNewlines 0⟩

def ofString (text : String) : LineIndex := ofText text.toList

def lineCount (index : LineIndex) : Nat := index.starts.length

/-- The line of an offset: the last one that starts at or before it. -/
def lineAt (index : LineIndex) (offset : Nat) : Nat :=
  (index.starts.takeWhile (· ≤ offset)).length - 1

/-- The bytes of a line without its newline. -/
def lineSpan? (index : LineIndex) (line : Nat) : Option Span :=
  index.starts[line]?.map fun start =>
    match index.starts[line + 1]? with
    | some next => ⟨start, next - 1⟩
    | none => ⟨start, index.text.size⟩

/-- The position of an offset. Offsets past the end are at the end; an offset inside a character
counts the character. -/
def position (index : LineIndex) (offset : Nat) : Position :=
  let offset := min offset index.text.size
  let line := index.lineAt offset
  let start := index.starts[line]?.getD 0
  ⟨line, (index.text.dropBytes start).unitsWithin (offset - start)⟩

/-- The offset of a position. Columns past the end of a line are at its end. -/
def offset? (index : LineIndex) (p : Position) : Option Nat :=
  (index.lineSpan? p.line).map fun span => span.start + (index.text.slice span).bytesWithin p.column

/-- The position as people count, `line:column` from one. -/
def display (index : LineIndex) (offset : Nat) : String :=
  let p := index.position offset
  toString (p.line + 1) ++ ":" ++ toString (p.column + 1)

def range (index : LineIndex) (s : Span) : Position × Position :=
  (index.position s.start, index.position s.stop)

/-- The line of an offset without its end: newline and carriage returns. -/
def lineText (index : LineIndex) (offset : Nat) : String :=
  match index.lineSpan? (index.position offset).line with
  | some span => String.ofList ((index.text.slice span).trimEnd '\r')
  | none => ""

end LineIndex

end SolidityInlay
