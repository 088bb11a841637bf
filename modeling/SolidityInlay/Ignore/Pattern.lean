import SolidityInlay.Bytes.Basic

/-!
# Patterns of ignore files

A pattern stands for the paths it matches. `?` is one byte and `*` any number of bytes of a name,
`**` between separators any number of directories, brackets hold a class, and braces hold
alternatives. A pattern is read as tokens and spread out into plain sequences, of which one has to
match.

Main definitions: `Ignore.Token`, `Ignore.Atom`, `Ignore.parseTokens?`, `Ignore.spread`,
`Ignore.matchAtoms`.
-/

namespace SolidityInlay.Ignore

inductive Token where
  | literal (c : Char)
  | any
  | star
  /-- `**` at the front. -/
  | anyAbove
  /-- `**` at the end, with the separator before it. -/
  | anyBelow
  /-- `**` between separators, with both. -/
  | anyBetween
  | oneOf (negated : Bool) (ranges : List (Char × Char))
  | alternatives (branches : List (List Token))
deriving Repr, Inhabited

inductive Atom where
  | byte (b : UInt8)
  /-- One byte of a name. -/
  | any
  /-- Bytes of a name. -/
  | run
  /-- Any bytes. -/
  | all
  | oneOf (negated : Bool) (ranges : List (UInt8 × UInt8))
deriving DecidableEq, Repr

/-! ## Reading -/

structure OpenGroup where
  /-- The tokens before the group, last first. -/
  before : List Token
  branches : List (List Token)

structure Reading where
  /-- The tokens of the current sequence, last first. -/
  tokens : List Token := []
  /-- The groups around it, innermost first. -/
  groups : List OpenGroup := []
  /-- The character before the current one. -/
  last : Option Char := none
  /-- Whether a bracket without its end has been found; from then on brackets are literal. -/
  plainBrackets : Bool := false

namespace Reading

def push (r : Reading) (token : Token) : Reading := { r with tokens := token :: r.tokens }

def openGroup (r : Reading) : Reading :=
  { r with tokens := [], groups := ⟨r.tokens, []⟩ :: r.groups }

def closeGroup (r : Reading) : Option Reading :=
  match r.groups with
  | [] => none
  | g :: outer =>
    some { r with
      tokens := .alternatives (g.branches ++ [r.tokens.reverse]) :: g.before
      groups := outer }

/-- A comma ends a branch in a group. -/
def comma (r : Reading) : Reading :=
  match r.groups with
  | [] => r.push (.literal ',')
  | g :: outer =>
    { r with tokens := [], groups := ⟨g.before, g.branches ++ [r.tokens.reverse]⟩ :: outer }

/-- Two stars after the current sequence, before `rest`. Also whether they take the separator that
follows. -/
def doubleStar (r : Reading) (before : Option Char) (rest : Text) : Reading × Bool :=
  let grouped := !r.groups.isEmpty
  let plain := ((r.push .star).push .star, false)
  let next := rest.head?
  if r.tokens.isEmpty then
    if next == none || next == some '/' then (r.push .anyAbove, next.isSome) else plain
  else if before != some '/' && !(grouped && (before == some ',' || before == some '{')) then plain
  else
    let atEnd := next == none || (grouped && (next == some ',' || next == some '}'))
    if !atEnd && next != some '/' then plain
    else
      let token : Token := match r.tokens.head? with
        | some .anyAbove => .anyAbove
        | some .anyBelow => .anyBelow
        | _ => if atEnd then .anyBelow else .anyBetween
      ({ r with tokens := token :: r.tokens.drop 1 }, !atEnd)

end Reading

inductive ClassText where
  /-- The ranges of a class, and the rest after its closing bracket. -/
  | closed (ranges : List (Char × Char)) (rest : Text)
  /-- The text ends within the class. -/
  | unclosed
  /-- A range ends before it starts. -/
  | reversed

/-- Reads a class. `first` says that nothing of it has been read, and `ranged` that the last
character read was a dash after a range. -/
def readClass (first ranged : Bool) (ranges : List (Char × Char)) : Text → ClassText
  | [] => .unclosed
  | c :: rest =>
    if c == ']' && !first then
      .closed (ranges.reverse ++ (if ranged then [('-', '-')] else [])) rest
    else if c == '-' && !first && !ranged then readClass false true ranges rest
    else
      match ranged, ranges with
      | true, (low, _) :: more =>
        if low ≤ c then readClass false false ((low, c) :: more) rest else .reversed
      | _, _ => readClass false false ((c, c) :: ranges) rest

/-- Whether a class is negated, and what follows the mark that says so. -/
def classMark : Text → Bool × Text
  | '!' :: rest => (true, rest)
  | '^' :: rest => (true, rest)
  | rest => (false, rest)

/-- Reads the tokens of a text. It fails on a range that ends before it starts, on braces that do
not match, and on a backslash at the end. -/
def readTokens : Nat → Reading → Text → Option Reading
  | 0, _, _ => none
  | _ + 1, r, [] => if r.groups.isEmpty then some r else none
  | fuel + 1, r, c :: rest =>
    let before := r.last
    let r := { r with last := some c }
    match c with
    | '?' => readTokens fuel (r.push .any) rest
    | '*' =>
      match rest with
      | '*' :: rest =>
        let (r, taken) := r.doubleStar before rest
        if taken then readTokens fuel { r with last := some '/' } (rest.drop 1)
        else readTokens fuel r rest
      | _ => readTokens fuel (r.push .star) rest
    | '[' =>
      if r.plainBrackets then readTokens fuel (r.push (.literal '[')) rest
      else
        let (negated, body) := classMark rest
        match readClass true false [] body with
        | .closed ranges after =>
          readTokens fuel ({ r with last := some ']' }.push (.oneOf negated ranges)) after
        | .unclosed => readTokens fuel ({ r with plainBrackets := true }.push (.literal '[')) rest
        | .reversed => none
    | '{' => readTokens fuel r.openGroup rest
    | '}' => r.closeGroup.bind fun r => readTokens fuel r rest
    | ',' => readTokens fuel r.comma rest
    | '\\' =>
      match rest with
      | [] => none
      | e :: rest => readTokens fuel ({ r with last := some e }.push (.literal e)) rest
    | c => readTokens fuel (r.push (.literal c)) rest

def parseTokens? (cs : Text) : Option (List Token) :=
  (readTokens (cs.length + 1) {} cs).map fun r => r.tokens.reverse

/-! ## Sequences -/

def slash : UInt8 := 0x2F

def bytesOf (c : Char) : Bytes := Bytes.ofString (String.singleton c)

/-- The bytes of a range of characters: a character of several bytes stands for each of them. -/
def byteRanges (range : Char × Char) : List (UInt8 × UInt8) :=
  let (low, high) := range
  let each (bytes : Bytes) : List (UInt8 × UInt8) := bytes.map fun b => (b, b)
  if low == high then each (bytesOf low)
  else
    let lows := bytesOf low
    let highs := bytesOf high
    each lows.dropLast ++ [(lows.getLast?.getD 0, highs.head?.getD 0)] ++ each (highs.drop 1)

mutual

def spreadToken : Token → List (List Atom)
  | .literal c => [(bytesOf c).map .byte]
  | .any => [[.any]]
  | .star => [[.run]]
  | .anyAbove => [[], [.byte slash], [.all, .byte slash]]
  | .anyBelow => [[.byte slash, .all]]
  | .anyBetween => [[.byte slash], [.byte slash, .all, .byte slash]]
  | .oneOf negated ranges => [[.oneOf negated (ranges.flatMap byteRanges)]]
  | .alternatives branches =>
    let sequences := spreadBranches branches
    if sequences.isEmpty then [[]] else sequences

def spreadTokens : List Token → List (List Atom)
  | [] => [[]]
  | token :: rest =>
    let after := spreadTokens rest
    (spreadToken token).flatMap fun front => after.map (front ++ ·)

/-- The sequences of all branches; a branch that is empty counts for nothing. -/
def spreadBranches : List (List Token) → List (List Atom)
  | [] => []
  | branch :: rest =>
    let sequences := spreadTokens branch
    (if sequences == [[]] then [] else sequences) ++ spreadBranches rest

end

/-- The sequences of a pattern. Two stars alone stand for every path. -/
def spread (tokens : List Token) : List (List Atom) :=
  match tokens with
  | [.anyAbove] => [[.all]]
  | _ => spreadTokens tokens

/-! ## Matching -/

def Atom.accepts (b : UInt8) : Atom → Bool
  | .byte c => b == c
  | .any | .run => b != slash
  | .all => true
  | .oneOf negated ranges =>
    (ranges.any fun (low, high) => low ≤ b && b ≤ high) != negated

/-- Whether a step may be repeated or left out. -/
def Atom.repeats : Atom → Bool
  | .run | .all => true
  | _ => false

/-- Whether a sequence matches bytes as a whole. -/
def matchAtoms : List Atom → Bytes → Bool
  | [], bytes => bytes.isEmpty
  | atom :: atoms, [] => atom.repeats && matchAtoms atoms []
  | atom :: atoms, b :: bytes =>
    if atom.repeats then
      matchAtoms atoms (b :: bytes) || (atom.accepts b && matchAtoms (atom :: atoms) bytes)
    else atom.accepts b && matchAtoms atoms bytes
termination_by atoms bytes => atoms.length + bytes.length

end SolidityInlay.Ignore
