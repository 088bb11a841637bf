/-!
# Text and byte offsets

Text is a list of characters. Every offset in this library counts bytes of the UTF-8 encoding, so
the measure of a text is the sum of its characters' encoded sizes, and a slice is cut at two byte
offsets.

Main definitions: `Text.size`, `Text.slice`, `Span`.
-/

namespace SolidityInlay

abbrev Text := List Char

structure Span where
  start : Nat
  stop : Nat
deriving DecidableEq, Repr, Inhabited

namespace Text

def size : Text → Nat
  | [] => 0
  | c :: cs => c.utf8Size + size cs

/-- What is left after the characters that start before byte `n`. -/
def dropBytes : Nat → Text → Text
  | 0, cs => cs
  | _ + 1, [] => []
  | n + 1, c :: cs => dropBytes (n + 1 - c.utf8Size) cs

/-- The leading characters that fit into `n` bytes. -/
def takeBytes : Nat → Text → Text
  | _, [] => []
  | n, c :: cs => if c.utf8Size ≤ n then c :: takeBytes (n - c.utf8Size) cs else []

def slice (cs : Text) (s : Span) : Text :=
  takeBytes (s.stop - s.start) (dropBytes s.start cs)

def sliceString (cs : Text) (s : Span) : String :=
  String.ofList (cs.slice s)

end Text

namespace Span

def size (s : Span) : Nat := s.stop - s.start

def isEmpty (s : Span) : Bool := s.start == s.stop

/-- Both ends count, so a caret right after a token still touches it. -/
def touches (s : Span) (offset : Nat) : Bool := s.start ≤ offset && offset ≤ s.stop

/-- The range written `start..stop`. -/
def text (s : Span) : String := toString s.start ++ ".." ++ toString s.stop

/-- The order of ranges by start, then by end. -/
def le (a b : Span) : Bool := a.start < b.start || (a.start == b.start && a.stop ≤ b.stop)

end Span

end SolidityInlay
