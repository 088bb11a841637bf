import SolidityInlay.Bytes.Basic

/-!
# Patterns of paths

A pattern is matched against the bytes of a path from left to right. `?` is a byte and `*` a run of
bytes within one component, `[a-z]` one byte of a class, `{a,b}` one of several, the longest that
fits, and `**` as a whole component any number of components. A backslash takes the meaning from
what follows it, and each `!` in front turns the answer around.

The matcher remembers where to go on after the last star takes one byte more. A star that meets a
separator falls back to the last `**`, which may take it.

Main definitions: `Glob.isMatch`.
-/

namespace SolidityInlay.Glob

/-- Where to go on once a star has taken one byte more; nowhere if `path` is zero. -/
structure Resume where
  glob : Nat := 0
  path : Nat := 0
deriving DecidableEq, Repr, Inhabited

/-- Positions in pattern and path, and where to go on after stars. -/
structure State where
  glob : Nat
  path : Nat
  star : Resume := {}
  globstar : Resume := {}
deriving DecidableEq, Repr, Inhabited

/-- A matcher inside braces: the states at the braces, innermost first, and how far the longest
alternative reached. -/
structure Matcher where
  state : State
  braces : List State := []
  longest : Nat := 0
deriving DecidableEq, Repr, Inhabited

inductive Answer where
  | matched
  | mismatched
  /-- The pattern is no pattern. -/
  | invalid
deriving DecidableEq, Repr

inductive Step where
  | done (answer : Answer)
  | next (m : Matcher)
  /-- The byte does not fit here. -/
  | stuck (m : Matcher)

def slash : UInt8 := 0x2f

def star : UInt8 := 0x2a

/-- How many braces may be open at once. -/
def maxOpen : Nat := 10

structure Subject where
  glob : Array UInt8
  path : Array UInt8

namespace Subject

def globHas (s : Subject) (i : Nat) (b : UInt8) : Bool := s.glob[i]? == some b

def isSeparator (s : Subject) (i : Nat) : Bool := s.path[i]? == some slash

/-- The position after any number of further `/**`. -/
def skipGlobstars (s : Subject) : Nat → Nat → Nat
  | 0, i => i
  | fuel + 1, i =>
    if s.globHas i slash && s.globHas (i + 1) star && s.globHas (i + 2) star then
      s.skipGlobstars fuel (i + 3)
    else i

/-- The byte at a position of the pattern, and the position of its last byte. -/
def unescape? (s : Subject) (i : Nat) : Option (UInt8 × Nat) :=
  (s.glob[i]?).bind fun b =>
    if b == 0x5c then
      (s.glob[i + 1]?).map fun c =>
        let meaning : UInt8 :=
          if c == 0x62 then 0x08
          else if c == 0x6e then 0x0a
          else if c == 0x72 then 0x0d
          else if c == 0x74 then 0x09
          else c
        (meaning, i + 1)
    else some (b, i)

/-! ## Braces -/

inductive BraceEnd where
  | invalid
  | comma (glob : Nat)
  | close (glob : Nat)
deriving DecidableEq, Repr

/-- Goes on to the next alternative, if asked for, or behind the closing brace. -/
def skipBraces (s : Subject) (stopAtComma : Bool) : Nat → Nat → Nat → Bool → BraceEnd
  | 0, _, _, _ => .invalid
  | fuel + 1, depth, i, inClass =>
    if depth = 0 then .close i
    else
      match s.glob[i]? with
      | none => .invalid
      | some b =>
        if b == 0x7b && !inClass then s.skipBraces stopAtComma fuel (depth + 1) (i + 1) inClass
        else if b == 0x7d && !inClass then s.skipBraces stopAtComma fuel (depth - 1) (i + 1) inClass
        else if b == 0x2c && stopAtComma && depth == 1 && !inClass then .comma (i + 1)
        else if b == star && !inClass then
          let i := if s.globHas (i + 1) star then s.skipGlobstars s.glob.size (i + 2) - 1 else i
          s.skipBraces stopAtComma fuel depth (i + 1) inClass
        else if b == 0x5b && !inClass then s.skipBraces stopAtComma fuel depth (i + 1) true
        else if b == 0x5d then s.skipBraces stopAtComma fuel depth (i + 1) false
        else if b == 0x5c then s.skipBraces stopAtComma fuel depth (i + 2) inClass
        else s.skipBraces stopAtComma fuel depth (i + 1) inClass

def leaveBraces (s : Subject) (stopAtComma : Bool) (i : Nat) : BraceEnd :=
  s.skipBraces stopAtComma (2 * s.glob.size + 2) 1 i false

end Subject

namespace Matcher

/-- Behind a closing brace: the path goes on after the longest alternative, the stars are those from
before the braces. -/
def close (m : Matcher) : Matcher :=
  match m.braces with
  | [] => m
  | outer :: rest =>
    { state := ⟨m.state.glob, m.longest, outer.star, outer.globstar⟩
      braces := rest
      longest := if rest.isEmpty then 0 else m.longest }

/-- Where the innermost braces began in the path. -/
def openPath (m : Matcher) : Nat := (m.braces.head?.map State.path).getD 0

end Matcher

namespace Subject

/-! ## Stars -/

/-- The state after reading `*` or `**` at the front of the pattern. -/
def enterStar (s : Subject) (st : State) : State :=
  let double := s.globHas (st.glob + 1) star
  let front := if double then s.skipGlobstars s.glob.size (st.glob + 2) - 2 else st.glob
  let resume : Resume := ⟨front, st.path + 1⟩
  if double then
    let after := front + 2
    if after = s.glob.size then { st with glob := after, star := resume, globstar := resume }
    else if (after < 3 || s.globHas (after - 3) slash) && s.globHas after slash then
      let optional := st.path == 0 || (st.path < s.path.size && s.isSeparator (st.path - 1))
      { st with
        glob := if optional then after + 1 else after, star := resume, globstar := resume }
    else { st with glob := after, star := resume }
  else { st with glob := front + 1, star := resume }

/-- A star that meets a separator falls back to the last `**`, or takes no more. -/
def atSeparator (s : Subject) (st : State) : State :=
  if st.globstar.path != st.star.path && s.isSeparator st.path then
    if 0 < st.globstar.path && st.path + 1 < s.path.size then
      { st with glob := st.globstar.glob, star := { st.star with glob := st.globstar.glob } }
    else { st with star := { st.star with path := 0 } }
  else st

def starStep (s : Subject) (m : Matcher) : Step :=
  let st := s.atSeparator (s.enterStar m.state)
  if !m.braces.isEmpty && (s.globHas st.glob 0x2c || s.globHas st.glob 0x7d) then
    match s.leaveBraces false st.glob with
    | .close i => .next { m with state := { st with glob := i } }
    | _ => .done .invalid
  else .next { m with state := st }

/-! ## Classes -/

/-- Whether a byte is in the class read so far or in what follows, and the position of the closing
bracket. -/
def readClass (s : Subject) (b : UInt8) : Nat → Bool → Bool → Nat → Option (Bool × Nat)
  | 0, _, _, _ => none
  | fuel + 1, first, found, i =>
    if s.glob.size ≤ i then none
    else if !first && s.globHas i 0x5d then some (found, i)
    else do
      let (low, i) ← s.unescape? i
      let i := i + 1
      let (high, i) ←
        if i + 1 < s.glob.size && s.globHas i 0x2d && !s.globHas (i + 1) 0x5d then do
          let (high, i) ← s.unescape? (i + 1)
          some (high, i + 1)
        else some (low, i)
      s.readClass b fuel false (found || (low ≤ b && b ≤ high)) i

def classStep (s : Subject) (m : Matcher) (b : UInt8) : Step :=
  let st := m.state
  let negated := s.globHas (st.glob + 1) 0x5e || s.globHas (st.glob + 1) 0x21
  let start := if negated then st.glob + 2 else st.glob + 1
  match s.readClass b (s.glob.size + 1) true false start with
  | none => .done .invalid
  | some (found, i) =>
    let st := { st with glob := i + 1 }
    if found != negated then .next { m with state := { st with path := st.path + 1 } }
    else .stuck { m with state := st }

/-! ## Single bytes -/

def byteStep (s : Subject) (m : Matcher) (b : UInt8) : Step :=
  match s.unescape? m.state.glob with
  | none => .done .invalid
  | some (c, i) =>
    let m := { m with state := { m.state with glob := i } }
    if b == c then
      let m := if !m.braces.isEmpty && 0 < i && s.globHas (i - 1) 0x7d then
        { m with longest := m.state.path }.close else m
      let st := { m.state with glob := m.state.glob + 1, path := m.state.path + 1 }
      .next { m with
        state := if c == slash then st else { st with globstar := { st.globstar with path := 0 } } }
    else .stuck m

/-! ## The matcher -/

def advance (s : Subject) (m : Matcher) : Step :=
  match s.glob[m.state.glob]? with
  | none => .stuck m
  | some c =>
    if c == star then s.starStep m
    else if c == 0x7d && !m.braces.isEmpty then
      let longest := max m.longest m.state.path
      .next { m with longest, state := { m.state with glob := m.state.glob + 1 } }.close
    else if c == 0x2c && !m.braces.isEmpty then
      .next { m with
        longest := max m.longest m.state.path
        state := ⟨m.state.glob + 1, m.openPath, {}, {}⟩ }
    else
      match s.path[m.state.path]? with
      | none => .stuck m
      | some b =>
        if c == 0x3f then
          if b == slash then .stuck m
          else
            .next { m with
              state := { m.state with glob := m.state.glob + 1, path := m.state.path + 1 } }
        else if c == 0x5b then s.classStep m b
        else if c == 0x7b then
          if maxOpen ≤ m.braces.length then .done .invalid
          else
            .next { m with
              state := ⟨m.state.glob + 1, m.state.path, {}, {}⟩
              braces := m.state :: m.braces }
        else s.byteStep m b

/-- Goes on after the last star, if it can take more. -/
def backtrack? (s : Subject) (st : State) : Option State :=
  if 0 < st.star.path && st.star.path ≤ s.path.size then
    some { st with glob := st.star.glob, path := st.star.path }
  else none

/-- What to do where a byte does not fit: go on after a star, or with another alternative. -/
def recover (s : Subject) (m : Matcher) : Step :=
  match s.backtrack? m.state with
  | some st => .next { m with state := st }
  | none =>
    match m.braces with
    | [] => .done .mismatched
    | outer :: rest =>
      match s.leaveBraces true m.state.glob with
      | .invalid => .done .invalid
      | .comma i => .next { m with state := { m.state with glob := i, path := outer.path } }
      | .close i =>
        if 0 < m.longest then .next { m with state := { m.state with glob := i } }.close
        else
          match s.backtrack? outer with
          | some st => .next { m with state := st, braces := rest }
          | none => .done .mismatched

def run (s : Subject) : Nat → Matcher → Answer
  | 0, _ => .mismatched
  | fuel + 1, m =>
    if s.glob.size ≤ m.state.glob ∧ s.path.size ≤ m.state.path then .matched
    else
      match s.advance m with
      | .done answer => answer
      | .next m => s.run fuel m
      | .stuck m =>
        match s.recover m with
        | .done answer => answer
        | .next m => s.run fuel m
        | .stuck _ => .mismatched

end Subject

def isMatch (glob path : String) : Bool :=
  let bytes := Bytes.ofString glob
  let marks := (bytes.takeWhile (· == 0x21)).length
  let s : Subject := ⟨bytes.toArray, (Bytes.ofString path).toArray⟩
  let pairs := (s.glob.size + 2) * (s.path.size + 2)
  let fuel := pairs * pairs
  let negated := marks % 2 == 1
  match s.run fuel { state := ⟨marks, 0, {}, {}⟩ } with
  | .matched => !negated
  | .mismatched => negated
  | .invalid => false

end SolidityInlay.Glob
