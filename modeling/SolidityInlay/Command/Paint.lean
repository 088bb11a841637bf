import SolidityInlay.Editor.Diagnostics

/-!
# Output for people

Severities in colours, and diagnostics with the line they are about.

Main definitions: `paint`, `diagnosticLines`.
-/

namespace SolidityInlay

/-- A text in the colour of a severity: errors bold red, warnings bold yellow, the rest cyan. -/
def paint (colored : Bool) (severity : Severity) (text : String) : String :=
  if colored then
    match severity with
    | .error => "\x1b[1m\x1b[31m" ++ text ++ "\x1b[39m\x1b[0m"
    | .warning => "\x1b[1m\x1b[33m" ++ text ++ "\x1b[39m\x1b[0m"
    | .info => "\x1b[36m" ++ text ++ "\x1b[39m"
  else text

def labelled (colored : Bool) (severity : Severity) (text : String) : String :=
  paint colored severity (severity.label ++ ":") ++ " " ++ text ++ "\n"

/-- How many characters of the first line a range covers; at least one. -/
def underlineWidth (start stop : Position) : Nat :=
  if stop.line = start.line then max (stop.column - start.column) 1 else 1

def repeated (c : Char) (count : Nat) : String := String.ofList (List.replicate count c)

/-- A diagnostic about a file: where and what, the line, and the range underlined. -/
def diagnosticLines (colored : Bool) (file : String) (index : LineIndex) (d : HostDiagnostic) :
    String :=
  let (start, stop) := index.range d.span
  let label := d.severity.label ++ "[" ++ d.code.label ++ "]"
  let line := file ++ ":" ++ index.display d.span.start ++ ": " ++ paint colored d.severity label ++
    " " ++ d.message
  let marks := repeated ' ' start.column ++
    paint colored d.severity (repeated '^' (underlineWidth start stop))
  line ++ "\n    " ++ index.lineText d.span.start ++ "\n    " ++ marks ++ "\n"

end SolidityInlay
