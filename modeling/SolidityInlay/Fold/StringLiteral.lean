import SolidityInlay.Text.Basic
import SolidityInlay.Text.Classes

/-!
# String literals

The value of a quoted string literal: its escapes are decoded, a malformed escape leaves it without
a value. A code point that is no character, such as half of a surrogate pair, is malformed too.

Main definitions: `StringLiteral.unescape`, `StringLiteral.cook`.
-/

namespace SolidityInlay.StringLiteral

/-- The number written in base 16, perhaps after a plus sign, if it fits into 32 bits. -/
def hexNumber? (digits : Text) : Option Nat :=
  let body := match digits with
    | '+' :: rest => rest
    | _ => digits
  if body.isEmpty then none
  else do
    let values ← body.mapM hexDigit?
    let n := values.foldl (fun n d => 16 * n + d) 0
    if n < UInt32.size then some n else none

/-- The character with a code point: surrogates and numbers past the last plane have none. -/
def charOf? (n : Nat) : Option Char :=
  if n < 0xD800 ∨ (0xDFFF < n ∧ n < 0x110000) then some (Char.ofNat n) else none

def hexChar? (digits : Text) : Option Char := (hexNumber? digits).bind charOf?

def simpleEscape? (c : Char) : Option Char :=
  match c with
  | 'n' => some '\n'
  | 'r' => some '\r'
  | 't' => some '\t'
  | 'b' => some '\x08'
  | 'f' => some '\x0c'
  | 'v' => some '\x0b'
  | _ => none

mutual

def unescape : Text → Option Text
  | [] => some []
  | '\\' :: 'x' :: a :: b :: cs => do
    let c ← hexChar? [a, b]
    (unescape cs).map (c :: ·)
  | '\\' :: 'x' :: _ => none
  | '\\' :: 'u' :: '{' :: cs => unescapeBraced [] cs
  | '\\' :: 'u' :: a :: b :: c :: d :: cs => do
    let e ← hexChar? [a, b, c, d]
    (unescape cs).map (e :: ·)
  | '\\' :: 'u' :: _ => none
  | '\\' :: '\n' :: cs => unescape cs
  | '\\' :: '\r' :: '\n' :: cs => unescape cs
  | '\\' :: '\r' :: cs => unescape cs
  | '\\' :: '0' :: cs =>
    if cs.head?.any Char.isDigit then none else (unescape cs).map ('\x00' :: ·)
  | '\\' :: c :: cs =>
    if c.isDigit then none else (unescape cs).map ((simpleEscape? c).getD c :: ·)
  | ['\\'] => none
  | c :: cs => (unescape cs).map (c :: ·)

/-- Decodes after an opening brace; the digits read so far, last first. The end of the text also
ends the digits. -/
def unescapeBraced (digits : Text) : Text → Option Text
  | [] => (hexChar? digits.reverse).map ([·])
  | '}' :: cs => do
    let c ← hexChar? digits.reverse
    (unescape cs).map (c :: ·)
  | d :: cs => unescapeBraced (d :: digits) cs

end

/-- A character other than a backslash stands for itself. -/
theorem unescape_itself {c : Char} (backslash : c ≠ '\\') (body : Text) :
    unescape (c :: body) = (unescape body).map (c :: ·) := by
  rw [unescape] <;> grind

/-- The value of a literal, its quotes included. -/
def cook : Text → Option Text
  | [] => none
  | quote :: rest =>
    if (quote == '"' || quote == '\'') && rest.getLast? == some quote then unescape rest.dropLast
    else none

end SolidityInlay.StringLiteral
