import SolidityInlay.Json.Value
import SolidityInlay.Text.Basic

/-!
# Printing JSON

Compact text: no blanks, fields in the order of the object. In strings only the quote, the backslash
and the controls below U+0020 are escaped.

Main definitions: `Json.quote`, `Json.Value.render`, `Json.Value.compact`.
-/

namespace SolidityInlay.Json

def hexDigitChar (n : Nat) : Char := Nat.digitChar n

def escapeChar (c : Char) : Text :=
  match c with
  | '"' => ['\\', '"']
  | '\\' => ['\\', '\\']
  | '\x08' => ['\\', 'b']
  | '\t' => ['\\', 't']
  | '\n' => ['\\', 'n']
  | '\x0c' => ['\\', 'f']
  | '\r' => ['\\', 'r']
  | _ =>
    if c.toNat < 0x20 then
      ['\\', 'u', '0', '0', hexDigitChar (c.toNat / 16), hexDigitChar (c.toNat % 16)]
    else [c]

def quoteText (s : Text) : Text := '"' :: s.flatMap escapeChar ++ ['"']

def quote (s : String) : String := String.ofList (quoteText s.toList)

def integerText (n : Int) : Text :=
  if n < 0 then '-' :: Nat.toDigits 10 n.natAbs else Nat.toDigits 10 n.natAbs

/-- The text of a number; a double that is not finite has none and is written as null. -/
def Number.render : Number → Text
  | .integer n => integerText n
  | .double d => if d.isFinite then d.text.toList else "null".toList

mutual

def Value.render : Value → Text
  | .null => "null".toList
  | .bool true => "true".toList
  | .bool false => "false".toList
  | .number n => n.render
  | .string s => quoteText s.toList
  | .array items => '[' :: renderItems items ++ [']']
  | .object fields => '{' :: renderFields fields ++ ['}']

def renderItems : List Value → Text
  | [] => []
  | [v] => v.render
  | v :: rest => v.render ++ ',' :: renderItems rest

def renderFields : List (String × Value) → Text
  | [] => []
  | [(k, v)] => quoteText k.toList ++ ':' :: v.render
  | (k, v) :: rest => quoteText k.toList ++ ':' :: v.render ++ ',' :: renderFields rest

end

@[simp] theorem Value.render_string (s : String) :
    (Value.string s).render = quoteText s.toList := by
  rw [Value.render]

def Value.compact (v : Value) : String := String.ofList v.render

end SolidityInlay.Json
