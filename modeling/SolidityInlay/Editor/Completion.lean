import SolidityInlay.Analysis.Basic
import SolidityInlay.Text.WordChars

/-!
# Completion of contract names

Inside the name of a site an editor offers the contracts of the site: those it compiled to, or those
its text seems to declare.

Main definitions: `Completion`, `completionsAt`, `declaredContracts`.
-/

namespace SolidityInlay

structure Completion where
  label : String
  detail : String
deriving DecidableEq, Repr

namespace Declared

def isNameStart (c : Char) : Bool := c.isAlpha || c == '_' || c == '$'

def isNameChar (c : Char) : Bool := c.isAlphanum || c == '_' || c == '$'

/-- The text after a word and the white space that must follow it. -/
def afterWord? (word cs : Text) : Option Text :=
  if word.isPrefixOf cs then
    match cs.drop word.length with
    | c :: rest => if isWhiteSpace c then some (rest.dropWhile isWhiteSpace) else none
    | [] => none
  else none

def name? (cs : Text) : Option Text :=
  match cs with
  | c :: rest => if isNameStart c then some (c :: rest.takeWhile isNameChar) else none
  | [] => none

/-- The name in `contract Name` at the front, and the text after it. -/
def plain? (cs : Text) : Option (Text × Text) := do
  let rest ← afterWord? "contract".toList cs
  let name ← name? rest
  some (name, rest.drop name.length)

/-- The name in `contract Name` or `abstract contract Name` at the front, and the text after it. -/
def here? (cs : Text) : Option (Text × Text) :=
  ((afterWord? "abstract".toList cs).bind plain?).or (plain? cs)

/-- The declared names of a text, where a declaration begins with a new word. -/
def names : Nat → Option Char → Text → List Text
  | 0, _, _ => []
  | _, _, [] => []
  | fuel + 1, before, c :: cs =>
    let fresh := !(before.map isWordChar).getD false
    match if fresh then here? (c :: cs) else none with
    | some (name, rest) => name :: names fuel name.getLast? rest
    | none => names fuel (some c) cs

end Declared

/-- The contracts a Solidity text seems to declare, each once. -/
def declaredContracts (text : Text) : List String :=
  (Declared.names text.length none text).foldl
    (fun found name =>
      let name := String.ofList name
      if found.contains name then found else found ++ [name])
    []

namespace SiteAnalysis

def knownText (s : SiteAnalysis) : String :=
  s.site.source.getD (String.join (s.site.segments.map Segment.raw))

def completions (s : SiteAnalysis) : List Completion :=
  match s.unit? with
  | some unit => unit.contractNames.map (⟨·, "Solidity contract"⟩)
  | none => (declaredContracts s.knownText.toList).map (⟨·, "Solidity contract (not compiled)"⟩)

end SiteAnalysis

/-- What to offer at an offset: only strictly inside the quotes of a site's name. -/
def completionsAt (a : Analysis) (offset : Nat) : List Completion :=
  let inside (s : SiteAnalysis) : Bool :=
    match s.site.name with
    | some name => name.span.start < offset && offset < name.span.stop
    | none => false
  match a.sites.find? inside with
  | some s => s.completions
  | none => []

end SolidityInlay
