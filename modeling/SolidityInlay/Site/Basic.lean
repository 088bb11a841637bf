import SolidityInlay.Text.Basic

/-!
# Embedding sites

A site is a marked template in host text: its marker, perhaps the contract it names, the literal
text between the template's marks in pieces, and the Solidity source it stands for, when every
substitution has a known value.

Main definitions: `Site`, `Site.resolveSource`.
-/

namespace SolidityInlay

/-- The contract name given to a marker, and its literal with the quotes. -/
structure SiteName where
  value : String
  span : Span
deriving DecidableEq, Repr

/-- Literal text of a template between marks and substitutions. -/
structure Segment where
  raw : String
  span : Span
deriving DecidableEq, Repr

/-- One `${ expression }` and the value of its expression, if known. -/
structure Interpolation where
  expr : Span
  substitution : Span
  value : Option String
deriving DecidableEq, Repr

/-- A marked template. -/
structure Site where
  name : Option SiteName
  marker : Span
  /-- The whole tagged template. -/
  span : Span
  /-- The template with its marks. -/
  template : Span
  segments : List Segment
  interpolations : List Interpolation
  /-- The Solidity text; absent if a substitution has no known value. -/
  source : Option String
deriving DecidableEq, Repr

namespace Site

def text (site : Site) : Span := ⟨site.template.start + 1, site.template.stop - 1⟩

def isResolved (site : Site) : Bool := site.source.isSome

/-- Literal text and values in turn, if every value is known. -/
def resolveSource : List Segment → List Interpolation → Option String
  | [], _ => some ""
  | s :: ss, [] => (resolveSource ss []).map (s.raw ++ ·)
  | s :: ss, i :: is =>
    i.value.bind fun value => (resolveSource ss is).map fun rest => s.raw ++ value ++ rest

end Site

end SolidityInlay
