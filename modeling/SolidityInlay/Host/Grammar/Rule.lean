import SolidityInlay.Host.Grammar.Lexeme

/-!
# Rules of the host grammar

The constructs that can contain themselves, through whatever lies between. Every parser of the
grammar takes the rules as a function and goes through it wherever the grammar is recursive, so the
parsers are plain definitions and the recursion is closed in one place.

Main definitions: `Dialect`, `Mode`, `Rule`, `Rules`.
-/

namespace SolidityInlay.Host.Grammar

/-- Whether angle brackets in front of an operand open a type assertion or an element. -/
inductive Dialect where
  | plain
  | markup
deriving DecidableEq, Repr

structure Mode where
  /-- `in` is an operator here: not in the head of a `for`. -/
  allowIn : Bool := true
  /-- The end of a line may end the statement here: not inside brackets. -/
  lineEnds : Bool := false
  /-- An arrow function may state its result type: not before the colon of a conditional. -/
  arrowTypes : Bool := true

namespace Mode

/-- Inside brackets of any kind. -/
def inner : Mode := {}

def statement : Mode := { lineEnds := true }

/-- In the head of a `for`. -/
def forHead : Mode := { allowIn := false }

end Mode

inductive Rule where
  | statement
  | block
  | expression (mode : Mode)
  | expressions (mode : Mode)
  /-- Binary operators of at least this level; `loose` also takes `as`, `satisfies` and `!`. -/
  | binary (mode : Mode) (level : Nat) (loose : Bool)
  | unary (mode : Mode)
  /-- An operand with its accesses and calls. -/
  | operand (mode : Mode)
  | pattern
  | type
  | primaryType
  | element

abbrev Rules := Rule → Parser Items

/-- An expression without a comma, inside brackets. -/
def innerExpression (g : Rules) : Parser Items := g (.expression .inner)

/-- Items between commas, any of which may be left out. -/
def commaList (p : Parser Items) : Parser Items :=
  seq [optional p, many (seq [token ",", optional p])]

/-- At least one item, with commas between and perhaps one after the last. -/
def commaList1 (p : Parser Items) : Parser Items :=
  seq [p, many (seq [token ",", p]), optional (token ",")]

/-- A word that modifies the member after it, and is not itself the member's name. -/
def modifier (w : String) : Parser Items := do
  let items ← keyword w
  let next ← ahead
  let op := operatorAt next
  let startsName := wordLength next != 0 || ["[", "#", "*", "\"", "'", "\x7b"].contains op ||
    next.head?.any Char.isDigit
  seq [pure items, ensure startsName]

/-- The name of a property: a word, a private name, a string, a number or a computed name. -/
def propertyName (g : Rules) : Parser Items :=
  oneOf [
    anyWord .propertyIdentifier,
    privateName,
    stringLiteral,
    numberLiteral,
    node .computedPropertyName [token "[", innerExpression g, token "]"]]

end SolidityInlay.Host.Grammar
