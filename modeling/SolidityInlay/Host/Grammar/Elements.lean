import SolidityInlay.Host.Grammar.Expressions

/-!
# Markup elements

Elements, fragments and their attributes, where angle brackets in front of an operand open one. Text
between tags that is nothing but line breaks and the indentation after them is no node.

Main definition: `elementBody`.
-/

namespace SolidityInlay.Host.Grammar

variable (g : Rules)

/-- Characters of a name in a tag, where dashes count as letters. -/
def tagNameLength (cs : Text) : Nat :=
  if cs.head?.any isWordStart then countWhile (fun c => isWordPart c || c == '-') cs else 0

/-- The name of an element: simple, with a namespace, or with dots. -/
def tagName : Parser Items := do
  let simple := lexeme (.named .identifier) tagNameLength
  let dotted (found : Items) : Parser Items := do
    if (← operatorAhead) == "." then
      node .memberExpression [pure found, token ".",
        lexeme (.named .propertyIdentifier) tagNameLength]
    else failure
  let first ← simple
  if (← operatorAhead) == ":" then node .jsxNamespaceName [pure first, token ":", simple]
  else iterate dotted first

/-- An attribute's string: no escapes, and it may run over lines. -/
def attributeString : Parser Items :=
  let text (quote : Char) :=
    let mark := String.singleton quote
    node .string [token mark,
      optional (adjacent (.named .stringFragment) (countWhile (· != quote))), adjacentMark mark]
  oneOf [text '"', text '\'']

/-- An expression in braces, perhaps empty or spread. -/
def embeddedExpression : Parser Items :=
  node .jsxExpression [openBrace, optional (oneOf [spread g, g (.expressions .inner)]), closeBrace]

def tagAttribute : Parser Items :=
  let simple := lexeme (.named .propertyIdentifier) tagNameLength
  let name := oneOf [node .jsxNamespaceName [simple, token ":", simple], simple]
  oneOf [
    embeddedExpression g,
    node .jsxAttribute [name, optional (seq [token "=",
      oneOf [attributeString, embeddedExpression g, g .element]])]]

/-- Whether the text of an element holds more than line breaks with indentation. -/
def hasElementText (afterBreak : Bool) : Text → Bool
  | [] => false
  | c :: cs =>
    if c == '\n' then hasElementText true cs
    else if afterBreak && isWhiteSpace c then hasElementText true cs
    else true

/-- A named or numbered character such as `&amp;`. -/
def characterReference : Parser Items :=
  adjacent (.named .htmlCharacterReference) fun
    | '&' :: cs =>
      let body := countWhile (fun c => c.isAlphanum || c == '#') cs
      if body != 0 && (cs.drop body).head? == some ';' then body + 2 else 0
    | _ => 0

/-- Text up to the next tag, expression or character reference. -/
def elementText : Parser Items :=
  adjacent (.named .jsxText) fun cs =>
    let text := cs.takeWhile fun c => !"<>\x7b\x7d&".toList.contains c
    if hasElementText false text then text.length else 0

def elementChildren : Parser Items :=
  many (oneOf [elementText, characterReference, adjacent (.named .jsxText) strayAmpersand,
    embeddedExpression g, g .element])
where
  strayAmpersand : Text → Nat
    | '&' :: _ => 1
    | _ => 0

/-- An element: empty, or with children between two tags; a fragment has no name. -/
def elementBody : Parser Items :=
  let attributes := many (tagAttribute g)
  let opening := node .jsxOpeningElement [token "<",
    optional (seq [tagName, optional (typeArguments g), attributes]), mark ">"]
  let closing := node .jsxClosingElement [mark "<", mark "/", optional tagName, mark ">"]
  oneOf [
    node .jsxSelfClosingElement [token "<", tagName, optional (typeArguments g), attributes,
      mark "/", mark ">"],
    node .jsxElement [opening, elementChildren g, closing]]

end SolidityInlay.Host.Grammar
