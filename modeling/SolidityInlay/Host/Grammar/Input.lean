import SolidityInlay.Host.Node
import SolidityInlay.Text.Classes

/-!
# Reading host text

The unread part of a host file, the blanks and comments in front of the next token, and the
combinators from which the grammar is built. A parser either fails, leaving nothing behind, or
answers the nodes it read, comments included, and the input after them.

A node is gathered from the items between its first and its last token: comments in front of its
first token belong to the enclosing node, comments after its last token are read with the token that
follows.

Main definitions: `Input`, `Parser`, `gather`, `node`, `many`, `iterate`.
-/

namespace SolidityInlay.Host.Grammar

/-- The unread text, the byte offset where it starts and the number of characters in it. -/
structure Input where
  rest : Text
  pos : Nat
  left : Nat

namespace Input

def ofText (text : Text) : Input := ⟨text, 0, text.length⟩

/-- The input after its first `n` characters. -/
def skip : Nat → Input → Input
  | 0, input => input
  | n + 1, ⟨c :: rest, pos, left⟩ => skip n ⟨rest, pos + c.utf8Size, left - 1⟩
  | _ + 1, input => input

end Input

def isBlank (c : Char) : Bool :=
  isWhiteSpace c || c.toNat == 0xFEFF || c.toNat == 0x2060 || c.toNat == 0x200B

def endsLine (c : Char) : Bool :=
  c == '\n' || c == '\r' || c.toNat == 0x2028 || c.toNat == 0x2029

/-- What stands in front of a token: comments, last first, and whether a line ends there. -/
structure Gap where
  comments : List Node := []
  lineBreak : Bool := false

namespace Gap

def push (gap : Gap) (start stop : Nat) : Gap :=
  { gap with comments := .mk (.named .comment) none ⟨start, stop⟩ [] :: gap.comments }

def broken (gap : Gap) (c : Char) : Gap :=
  { gap with lineBreak := gap.lineBreak || (endsLine c && c != '\r') }

end Gap

/-- Whether a gap is being read between comments, in a line comment or in a block comment. -/
inductive GapState where
  | between
  | line (start : Nat)
  | block (opening : Input)

/-- Reads blanks and comments; a block comment that never ends is left unread. -/
def readGap (gap : Gap) : GapState → Text → Nat → Nat → Gap × Input
  | .between, [], pos, left => (gap, ⟨[], pos, left⟩)
  | .line start, [], pos, left => (gap.push start pos, ⟨[], pos, left⟩)
  | .block opening, [], _, _ => (gap, opening)
  | .line start, c :: cs, pos, left =>
    if endsLine c then
      readGap ((gap.push start pos).broken c) .between cs (pos + c.utf8Size) (left - 1)
    else readGap gap (.line start) cs (pos + c.utf8Size) (left - 1)
  | .block opening, '*' :: '/' :: cs, pos, left =>
    readGap (gap.push opening.pos (pos + 2)) .between cs (pos + 2) (left - 2)
  | .block opening, c :: cs, pos, left =>
    readGap gap (.block opening) cs (pos + c.utf8Size) (left - 1)
  | .between, '/' :: '/' :: cs, pos, left => readGap gap (.line pos) cs (pos + 2) (left - 2)
  | .between, '/' :: '*' :: cs, pos, left =>
    readGap gap (.block ⟨'/' :: '*' :: cs, pos, left⟩) cs (pos + 2) (left - 2)
  | .between, c :: cs, pos, left =>
    if isBlank c then readGap (gap.broken c) .between cs (pos + c.utf8Size) (left - 1)
    else (gap, ⟨c :: cs, pos, left⟩)

/-- The gap in front of the next token, and the input at that token. -/
def Input.gap (input : Input) : Gap × Input :=
  readGap {} .between input.rest input.pos input.left

/-- Nodes in text order. -/
abbrev Items := List Node

/-- Reads part of the input, or fails. -/
abbrev Parser := StateT Input Option

def ahead : Parser Text := fun input => some (input.gap.2.rest, input)

def lineBreakAhead : Parser Bool := fun input => some (input.gap.1.lineBreak, input)

/-- Fails unless the condition holds. -/
def ensure (condition : Bool) : Parser Items :=
  if condition then pure [] else failure

/-- Succeeds, reading nothing, where `p` fails. -/
def absent (p : Parser Items) : Parser Items := fun input =>
  match p input with
  | some _ => none
  | none => some ([], input)

/-- Runs `p` for its success only. -/
def followedBy (p : Parser Items) : Parser Items := fun input =>
  match p input with
  | some _ => some ([], input)
  | none => none

/-- A leaf after the gap; `measure` counts its characters and fails on none. -/
def lexeme (label : Label) (measure : Text → Nat) : Parser Items := fun input =>
  let (gap, here) := input.gap
  match measure here.rest with
  | 0 => none
  | n =>
    let after := here.skip n
    some (gap.comments.reverse ++ [.mk label none ⟨here.pos, after.pos⟩ []], after)

/-- A leaf with no gap in front of it. -/
def adjacent (label : Label) (measure : Text → Nat) : Parser Items := fun here =>
  match measure here.rest with
  | 0 => none
  | n =>
    let after := here.skip n
    some ([.mk label none ⟨here.pos, after.pos⟩ []], after)

def splitComments (items : Items) : Items × Items :=
  items.span fun n => n.is .comment

/-- One node around the items, comments in front of it left outside. -/
def gather (label : Label) (items : Items) : Items :=
  match splitComments items with
  | (comments, first :: rest) =>
    let last := (first :: rest).getLast (by simp)
    comments ++ [.mk label none ⟨first.span.start, last.span.stop⟩ (first :: rest)]
  | (comments, []) => comments

/-- Puts the last item, the node just gathered, into a role. -/
def assign (r : Role) : Items → Items
  | [] => []
  | [n] => [n.withRole r]
  | n :: rest => n :: assign r rest

/-- Renames the last item, the node just gathered. -/
def rename (f : Node → Node) : Items → Items
  | [] => []
  | [n] => [f n]
  | n :: rest => n :: rename f rest

def seq : List (Parser Items) → Parser Items
  | [] => pure []
  | p :: ps => do
    let first ← p
    let rest ← seq ps
    pure (first ++ rest)

/-- The first that succeeds. -/
def oneOf : List (Parser Items) → Parser Items
  | [] => failure
  | p :: ps => fun input =>
    match p input with
    | some result => some result
    | none => oneOf ps input

def node (kind : Kind) (ps : List (Parser Items)) : Parser Items := do
  let items ← seq ps
  pure (gather (.named kind) items)

/-- The node `p` reads, in a role of its parent. -/
def part (r : Role) (p : Parser Items) : Parser Items := assign r <$> p

def optional (p : Parser Items) : Parser Items := fun input =>
  match p input with
  | some result => some result
  | none => some ([], input)

/-- Repeats a step for as long as it succeeds and reads something. -/
def iterate {α : Type} (step : α → Parser α) (a : α) (input : Input) : Option (α × Input) :=
  match step a input with
  | none => some (a, input)
  | some (b, next) =>
    if next.left < input.left then iterate step b next else some (a, input)
termination_by input.left

/-- Repeats `p` for as long as it succeeds and reads something. -/
def many (p : Parser Items) : Parser Items := fun input =>
  match iterate (fun found => (fun items => items :: found) <$> p) [] input with
  | some (found, next) => some (found.reverse.flatten, next)
  | none => none

/-- The kind of the last item, the node just gathered. -/
def lastKind (items : Items) : Option Kind :=
  items.getLast?.bind Node.kind?

end SolidityInlay.Host.Grammar
