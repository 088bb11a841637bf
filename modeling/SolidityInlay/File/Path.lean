import SolidityInlay.Text.Basic

/-!
# Paths

A path is a text; what it denotes is its list of components. Separators that are repeated or at the
end denote nothing, and neither does `.` except at the front of a relative path. Paths are compared
by their components.

Main definitions: `Path`, `Path.components`, `Path.join`, `Path.parent?`, `Path.ancestors`,
`Path.extension?`.
-/

namespace SolidityInlay

/-- A component of a path, in the order in which components compare. -/
inductive Component where
  | root
  | current
  | up
  | normal (name : String)
deriving DecidableEq, Repr

structure Path where
  text : String
deriving DecidableEq, Repr, Inhabited

namespace Component

def rank : Component → Nat
  | root => 0
  | current => 1
  | up => 2
  | normal _ => 3

def lt : Component → Component → Bool
  | normal a, normal b => a < b
  | a, b => a.rank < b.rank

def name : Component → String
  | root => "/"
  | current => "."
  | up => ".."
  | normal s => s

end Component

def splitSeparators : Text → List Text
  | [] => [[]]
  | c :: cs =>
    if c == '/' then [] :: splitSeparators cs
    else
      match splitSeparators cs with
      | first :: rest => (c :: first) :: rest
      | [] => [[c]]

namespace Path

/-- The component a text between separators denotes, if any. -/
def component? (piece : Text) : Option Component :=
  if piece.isEmpty || piece == ['.'] then none
  else if piece == ['.', '.'] then some .up
  else some (.normal (String.ofList piece))

def isAbsolute (p : Path) : Bool := p.text.toList.head? == some '/'

def components (p : Path) : List Component :=
  let pieces := splitSeparators p.text.toList
  let front : List Component :=
    if p.isAbsolute then [.root] else if pieces.head? == some ['.'] then [.current] else []
  front ++ pieces.filterMap component?

def same (p q : Path) : Bool := p.components == q.components

/-- The order of lists of components. -/
def componentsLt : List Component → List Component → Bool
  | _, [] => false
  | [], _ :: _ => true
  | a :: as, b :: bs => a.lt b || (a == b && componentsLt as bs)

def le (p q : Path) : Bool := !componentsLt q.components p.components

/-- One path followed by another; an absolute one replaces what is before it. -/
def join (p : Path) (q : String) : Path :=
  if q.toList.head? == some '/' then ⟨q⟩
  else if p.text.isEmpty || p.text.toList.getLast? == some '/' then ⟨p.text ++ q⟩
  else ⟨p.text ++ "/" ++ q⟩

/-- The last component, if it is a name. -/
def fileName? (p : Path) : Option String :=
  match p.components.getLast? with
  | some (.normal s) => some s
  | _ => none

/-- A name cut at its last point; none if there is no point after the first character. -/
def splitExtension? (name : String) : Option (String × String) :=
  let reversed := name.toList.reverse
  let ext := reversed.takeWhile (· != '.')
  match reversed.drop ext.length with
  | '.' :: stem =>
    if stem.isEmpty then none else some (String.ofList stem.reverse, String.ofList ext.reverse)
  | _ => none

/-- The text after the last point of the file name. -/
def extension? (p : Path) : Option String :=
  (p.fileName?.bind splitExtension?).map Prod.snd

/-- Reversed text between separators without what denotes nothing at its front. -/
def trimPieces : List Text → List Text
  | [] => []
  | piece :: above =>
    if (component? piece).isSome || (piece == ['.'] && above.isEmpty) then piece :: above
    else trimPieces above

/-- The text with these pieces, given from the last to the first. -/
def ofPieces : List Text → Text
  | [] => []
  | [piece] => piece
  | piece :: above => ofPieces above ++ '/' :: piece

/-- The path without its last component. -/
def parent? (p : Path) : Option Path :=
  match trimPieces (splitSeparators p.text.toList).reverse with
  | [] => none
  | _ :: above =>
    let kept := trimPieces above
    if kept.isEmpty && p.isAbsolute then some ⟨"/"⟩ else some ⟨String.ofList (ofPieces kept)⟩

/-- A path and the paths above it, for at most `fuel` steps up. -/
def ancestorsFrom : Nat → Path → List Path
  | 0, p => [p]
  | fuel + 1, p =>
    match p.parent? with
    | some above => p :: ancestorsFrom fuel above
    | none => [p]

/-- A path and the paths above it, nearest first. -/
def ancestors (p : Path) : List Path := ancestorsFrom p.text.length p

/-- The components left after those of another path. -/
def stripComponents : List Component → List Component → Option (List Component)
  | [], rest => some rest
  | _ :: _, [] => none
  | a :: as, b :: bs => if a == b then stripComponents as bs else none

def below? (p base : Path) : Option (List Component) :=
  stripComponents base.components p.components

def ofComponents (cs : List Component) : String :=
  match cs with
  | .root :: rest => "/" ++ String.intercalate "/" (rest.map Component.name)
  | _ => String.intercalate "/" (cs.map Component.name)

end Path

end SolidityInlay
