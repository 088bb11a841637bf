import SolidityInlay.Site.Basic

/-!
# Positions in host text and in Solidity text

The Solidity text of a resolved site is a concatenation of pieces. Literal pieces are copied, so
offsets in them shift by a constant. A substituted piece is as long as its value, and every offset
in it goes to one end of the expression.

An offset that starts a range belongs to the piece it begins; one that ends a range belongs to the
piece it finishes, so a range that stops where a substitution begins stays on the text before it.
Offsets past the last piece go to the end of the literal text.

Main definitions: `PositionMap`, `PositionMap.ofSite?`, `PositionMap.toHost`,
`PositionMap.toForeign?`.
-/

namespace SolidityInlay

inductive Side where
  | start
  | stop
deriving DecidableEq, Repr

inductive Origin where
  | literal (hostStart : Nat)
  | substituted (expr substitution : Span)
deriving DecidableEq, Repr

structure Piece where
  start : Nat
  size : Nat
  origin : Origin
deriving DecidableEq, Repr

namespace Piece

def stop (p : Piece) : Nat := p.start + p.size

def contains (p : Piece) (offset : Nat) : Side → Bool
  | .start => p.start ≤ offset && offset < p.stop
  | .stop => p.start < offset && offset ≤ p.stop

def toHost (p : Piece) (offset : Nat) (side : Side) : Nat :=
  match p.origin, side with
  | .literal hostStart, _ => hostStart + (offset - p.start)
  | .substituted expr _, .start => expr.start
  | .substituted expr _, .stop => expr.stop

/-- The offset for a host offset on literal text, ends included, or strictly inside a substitution.
-/
def toForeign? (p : Piece) (host : Nat) (side : Side) : Option Nat :=
  match p.origin with
  | .literal hostStart =>
    if hostStart ≤ host && host ≤ hostStart + p.size then some (p.start + (host - hostStart))
    else none
  | .substituted _ substitution =>
    if substitution.start < host && host < substitution.stop then
      match side with
      | .start => some p.start
      | .stop => some p.stop
    else none

def isSubstituted (p : Piece) : Bool :=
  match p.origin with
  | .literal _ => false
  | .substituted _ _ => true

end Piece

/-- The pieces of a site's Solidity text, the host text they come from, and their total size. -/
structure PositionMap where
  pieces : List Piece
  text : Span
  size : Nat
deriving DecidableEq, Repr

namespace PositionMap

/-- Pieces from offset `start` on, and where they end; none if a value is missing. -/
def piecesFrom (start : Nat) : List Segment → List Interpolation → Option (List Piece × Nat)
  | [], _ => some ([], start)
  | s :: ss, [] => do
    let literal : Piece := ⟨start, s.raw.utf8ByteSize, .literal s.span.start⟩
    let (rest, stop) ← piecesFrom literal.stop ss []
    some (literal :: rest, stop)
  | s :: ss, i :: is => do
    let literal : Piece := ⟨start, s.raw.utf8ByteSize, .literal s.span.start⟩
    let value ← i.value
    let substituted : Piece :=
      ⟨literal.stop, value.utf8ByteSize, .substituted i.expr i.substitution⟩
    let (rest, stop) ← piecesFrom substituted.stop ss is
    some (literal :: substituted :: rest, stop)

def ofSite? (site : Site) : Option PositionMap := do
  let (pieces, size) ← piecesFrom 0 site.segments site.interpolations
  if site.source.isSome then some ⟨pieces, site.text, size⟩ else none

def hasInterpolations (m : PositionMap) : Bool := m.pieces.any Piece.isSubstituted

def toHost (m : PositionMap) (offset : Nat) (side : Side) : Nat :=
  if side = .stop ∧ offset = 0 then m.text.start
  else
    match m.pieces.find? fun p => p.contains offset side with
    | some p => p.toHost offset side
    | none => m.text.stop

/-- The host range of a range in the Solidity text, never turned around. -/
def mapSpan (m : PositionMap) (s : Span) : Span :=
  let start := m.toHost s.start .start
  ⟨start, max (m.toHost s.stop .stop) start⟩

/-- The offset in the Solidity text for a host offset within the literal text. -/
def toForeign? (m : PositionMap) (host : Nat) (side : Side) : Option Nat :=
  if m.text.touches host then m.pieces.findSome? fun p => p.toForeign? host side else none

end PositionMap

end SolidityInlay
