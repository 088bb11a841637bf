import SolidityInlay.Json.Printer
import SolidityInlay.SourceMap.Vlq
import SolidityInlay.Text.LineIndex

/-!
# Source maps

Generated text is a list of chunks: text without a source, text copied from the source, or text that
stands for something in the source. A source map of version 3 tells for marked columns of the
generated text which position of the source they come from. A copied chunk is marked at its start
and at the start of each line in it, a replacement at its start.

Main definitions: `Chunk`, `Chunk.code`, `SourceMap`, `SourceMap.ofChunks`.
-/

namespace SolidityInlay

inductive Chunk where
  | unmapped (text : Text)
  | copied (text : Text) (offset : Nat)
  | replacement (text : Text) (offset : Nat)
deriving DecidableEq, Repr

namespace Chunk

def text : Chunk → Text
  | unmapped text => text
  | copied text _ => text
  | replacement text _ => text

def code (chunks : List Chunk) : Text := chunks.flatMap text

end Chunk

/-- Generated text with marks between its characters. -/
inductive Marked where
  | char (c : Char)
  | mark (source : Position)
deriving DecidableEq, Repr

namespace Marked

/-- Copied text from a source offset on, with a mark at the start of each line, and at the front if
`fresh`. -/
def copied (index : LineIndex) (fresh : Bool) (offset : Nat) : Text → List Marked
  | [] => []
  | c :: cs =>
    let rest := char c :: copied index (c == '\n') (offset + c.utf8Size) cs
    if fresh then mark (index.position offset) :: rest else rest

def ofChunk (index : LineIndex) : Chunk → List Marked
  | .unmapped text => text.map char
  | .copied text offset => copied index true offset text
  | .replacement text offset => mark (index.position offset) :: text.map char

end Marked

/-- A generated column and the source position it comes from. -/
structure Mapping where
  column : Nat
  source : Position
deriving DecidableEq, Repr

namespace Mapping

/-- Puts a mapping in front of the first line. -/
def push (m : Mapping) : List (List Mapping) → List (List Mapping)
  | [] => [[m]]
  | line :: rest => (m :: line) :: rest

/-- The mappings of each generated line, given the column the text begins at. -/
def lines (column : Nat) : List Marked → List (List Mapping)
  | [] => [[]]
  | .mark source :: rest => push ⟨column, source⟩ (lines column rest)
  | .char c :: rest =>
    if c == '\n' then [] :: lines 0 rest else lines (column + Text.charUnits c) rest

def delta (n previous : Nat) : Text := Vlq.encode (Int64.ofInt ((n : Int) - previous))

/-- The mappings of a line, after a generated column and a source position. There is one source, so
its number never changes. -/
def renderLine (column : Nat) (source : Position) : List Mapping → Text
  | [] => []
  | m :: rest =>
    let segment := delta m.column column ++ Vlq.encode 0 ++ delta m.source.line source.line ++
      delta m.source.column source.column
    segment ++ match rest with
      | [] => []
      | _ :: _ => ',' :: renderLine m.column m.source rest

def lastSource (source : Position) (line : List Mapping) : Position :=
  (line.getLast?.map Mapping.source).getD source

/-- All lines; generated columns start over on each, source positions go on. -/
def render (source : Position) : List (List Mapping) → Text
  | [] => []
  | [line] => renderLine 0 source line
  | line :: rest => renderLine 0 source line ++ ';' :: render (lastSource source line) rest

end Mapping

structure SourceMap where
  sources : List String
  contents : List String
  names : List String
  mappings : String
deriving DecidableEq, Repr

namespace SourceMap

def version : Nat := 3

def mappingsOf (index : LineIndex) (chunks : List Chunk) : List (List Mapping) :=
  Mapping.lines 0 (chunks.flatMap (Marked.ofChunk index))

def ofChunks (name : String) (index : LineIndex) (chunks : List Chunk) : SourceMap where
  sources := [name]
  contents := [String.ofList index.text]
  names := []
  mappings := String.ofList (Mapping.render ⟨0, 0⟩ (mappingsOf index chunks))

def json (m : SourceMap) : Json.Value :=
  .object [
    ("version", .nat version),
    ("sources", .array (m.sources.map .string)),
    ("sourcesContent", .array (m.contents.map .string)),
    ("names", .array (m.names.map .string)),
    ("mappings", .string m.mappings)]

end SourceMap

end SolidityInlay
