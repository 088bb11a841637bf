import SolidityInlay.Host.Grammar.Input

/-!
# Tokens of host text

Words, operators, numbers, string, template and regular expression pieces. Each measure counts the
characters of the token at the front of a text and is zero where there is none. Whether a slash
divides or opens a regular expression is for the grammar to say, by what it asks for.

Main definitions: `wordLength`, `operatorAt`, `token`, `keyword`, `identifier`, `stringLiteral`.
-/

namespace SolidityInlay.Host.Grammar

/-! ## Words -/

/-- Characters that can stand in a word: all but blanks, controls, digits and ASCII punctuation. -/
def isWordStart (c : Char) : Bool :=
  !(c.toNat < 0x20 || isBlank c || c.isDigit ||
    ":;\x60\"'@#.,|^&<=>+-*/\\%?!~()[]\x7b\x7d".toList.contains c)

def isWordPart (c : Char) : Bool := isWordStart c || c.isDigit

/-- Where the reader of a word stands: in plain characters, after an escape's letter, in its braces.
-/
inductive WordState where
  | plain
  | escaped
  | braced

def wordTail : WordState → Text → Nat
  | .plain, '\\' :: 'u' :: cs => 2 + wordTail .escaped cs
  | .plain, c :: cs => if isWordPart c then 1 + wordTail .plain cs else 0
  | .escaped, '{' :: cs => 1 + wordTail .braced cs
  | .escaped, c :: cs => if isWordPart c then 1 + wordTail .plain cs else 0
  | .braced, '}' :: cs => 1 + wordTail .plain cs
  | .braced, c :: cs => if isHexDigit c then 1 + wordTail .braced cs else 0
  | _, [] => 0

def wordLength : Text → Nat
  | '\\' :: 'u' :: cs => 2 + wordTail .escaped cs
  | c :: cs => if isWordStart c then 1 + wordTail .plain cs else 0
  | [] => 0

/-- The word at the front, empty where there is none. -/
def wordAt (cs : Text) : String := String.ofList (cs.take (wordLength cs))

/-- Words that never name a variable. -/
def reservedWords : List String :=
  ["break", "case", "catch", "class", "const", "continue", "debugger", "default", "delete", "do",
   "else", "enum", "extends", "false", "finally", "for", "function", "if", "import", "in",
   "instanceof", "new", "null", "return", "super", "switch", "this", "throw", "true", "try",
   "typeof", "var", "void", "while", "with"]

def isReserved (w : String) : Bool := reservedWords.contains w

def wordAhead : Parser String := wordAt <$> ahead

def keyword (w : String) : Parser Items :=
  lexeme (.token w) fun cs => if wordAt cs == w then w.length else 0

def anyWord (kind : Kind) : Parser Items := lexeme (.named kind) wordLength

def wordAs (kind : Kind) (w : String) : Parser Items :=
  lexeme (.named kind) fun cs => if wordAt cs == w then w.length else 0

def nameAs (kind : Kind) : Parser Items :=
  lexeme (.named kind) fun cs => if isReserved (wordAt cs) then 0 else wordLength cs

/-- A variable; `undefined` has a kind of its own. -/
def identifier : Parser Items := do
  if (← wordAhead) == "undefined" then anyWord .undefined else nameAs .identifier

/-- A private name such as `#x`. -/
def privateName : Parser Items :=
  lexeme (.named .privatePropertyIdentifier) fun
    | '#' :: cs => if wordLength cs == 0 then 0 else 1 + wordLength cs
    | _ => 0

/-! ## Operators and punctuation -/

/-- Longest first, so that the first that fits is the token. -/
def operators : List String :=
  [">>>=", "...", "===", "!==", "**=", "<<=", ">>=", ">>>", "&&=", "||=", "??=", "=>", "==", "!=",
   "<=", ">=", "&&", "||", "??", "?.", "++", "--", "+=", "-=", "*=", "/=", "%=", "&=", "|=", "^=",
   "<<", ">>", "**", "\x7b", "\x7d", "(", ")", "[", "]", ";", ",", "<", ">", "+", "-", "*", "/",
   "%", "&", "|", "^", "!", "~", "?", ":", "=", ".", "@", "#", "\x60", "\"", "'"]

/-- The operator or punctuation mark at the front, empty where there is none. -/
def operatorAt (cs : Text) : String :=
  match operators.find? fun op => op.toList.isPrefixOf cs with
  | none => ""
  | some "?." => if (cs.drop 2).head?.any Char.isDigit then "?" else "?."
  | some op => op

def operatorAhead : Parser String := operatorAt <$> ahead

def token (op : String) : Parser Items :=
  lexeme (.token op) fun cs => if operatorAt cs == op then op.length else 0

/-- A mark read on its own even where it could begin a longer one, as the end of type arguments. -/
def mark (op : String) : Parser Items :=
  lexeme (.token op) fun cs => if op.toList.isPrefixOf cs then op.length else 0

def adjacentMark (op : String) : Parser Items :=
  adjacent (.token op) fun cs => if op.toList.isPrefixOf cs then op.length else 0

def openBrace : Parser Items := token "\x7b"
def closeBrace : Parser Items := token "\x7d"

/-- Whether nothing is left but blanks and comments. -/
def atEnd : Parser Bool := List.isEmpty <$> ahead

/-- The end of a statement: a semicolon, or a place where one may be left out. -/
def semicolon : Parser Items := do
  let op ← operatorAhead
  if op == ";" then token ";"
  else ensure (op == "\x7d" || (← lineBreakAhead) || (← atEnd))

/-! ## Numbers -/

def countWhile (p : Char → Bool) (cs : Text) : Nat := (cs.takeWhile p).length

def isDigitOrBar (c : Char) : Bool := c.isDigit || c == '_'

def exponentLength : Text → Nat
  | e :: cs =>
    if e == 'e' || e == 'E' then
      let sign := match cs with
        | '+' :: _ => 1
        | '-' :: _ => 1
        | _ => 0
      let digits := countWhile isDigitOrBar (cs.drop sign)
      if digits == 0 then 0 else 1 + sign + digits
    else 0
  | [] => 0

/-- A number's characters: radix literals, decimals with a fraction or exponent, and big integers.
-/
def numberLength (cs : Text) : Nat :=
  match cs with
  | '0' :: x :: rest =>
    if "xXoObB".toList.contains x then
      let digits := countWhile (fun c => isHexDigit c || c == '_') rest
      2 + digits + countWhile (· == 'n') (rest.drop digits)
    else decimal cs
  | _ => decimal cs
where
  decimal (cs : Text) : Nat :=
    let whole := countWhile isDigitOrBar cs
    let rest := cs.drop whole
    if whole != 0 && rest.head? == some 'n' then whole + 1
    else
      let fraction := match rest with
        | '.' :: more =>
          let digits := countWhile isDigitOrBar more
          if whole == 0 && digits == 0 then 0 else 1 + digits
        | _ => 0
      if whole == 0 && fraction == 0 then 0
      else whole + fraction + exponentLength (rest.drop fraction)

def numberLiteral : Parser Items :=
  lexeme (.named .number) fun cs =>
    if cs.head?.any (fun c => c.isDigit || c == '.') then numberLength cs else 0

/-! ## Strings and templates -/

def escapeLength : Text → Nat
  | '\\' :: '\r' :: '\n' :: _ => 3
  | '\\' :: 'x' :: cs => 2 + min 2 (countWhile isHexDigit cs)
  | '\\' :: 'u' :: '{' :: cs =>
    let digits := countWhile isHexDigit cs
    if (cs.drop digits).head? == some '}' then 4 + digits else 2
  | '\\' :: 'u' :: cs => 2 + min 4 (countWhile isHexDigit cs)
  | '\\' :: c :: cs =>
    if '0' ≤ c ∧ c ≤ '7' then 2 + min 2 (countWhile (fun d => '0' ≤ d && d ≤ '7') cs) else 2
  | _ => 0

def escape : Parser Items := adjacent (.named .escapeSequence) escapeLength

/-- A string in the given quotes; it ends before its line does. -/
def quoted (quote : Char) : Parser Items :=
  let fragment := adjacent (.named .stringFragment) fun cs =>
    countWhile (fun c => c != quote && c != '\\' && c != '\n' && c != '\r') cs
  let mark := String.singleton quote
  node .string [token mark, many (oneOf [fragment, escape]), adjacentMark mark]

def stringLiteral : Parser Items := oneOf [quoted '"', quoted '\'']

/-- Template characters up to an escape, a substitution or the closing mark. -/
def templateChars : Text → Nat
  | '$' :: '{' :: _ => 0
  | c :: cs => if c == '\x60' || c == '\\' then 0 else 1 + templateChars cs
  | [] => 0

/-- The pieces of a template between its marks, `substitution` reading one `${...}`. -/
def templatePieces (substitution : Parser Items) : Parser Items :=
  many (oneOf [adjacent (.named .stringFragment) templateChars, escape, substitution])

/-! ## Regular expressions -/

/-- A pattern's characters up to the slash that ends it; `inClass` inside brackets. -/
def patternChars : Bool → Text → Nat
  | inClass, '\\' :: c :: cs => if endsLine c then 0 else 2 + patternChars inClass cs
  | inClass, c :: cs =>
    if endsLine c || (c == '/' && !inClass) then 0
    else 1 + patternChars (c == '[' || (inClass && c != ']')) cs
  | _, [] => 0

def regexLiteral : Parser Items :=
  node .regex [mark "/", adjacent (.named .regexPattern) (patternChars false), adjacentMark "/",
    optional (adjacent (.named .regexFlags) (countWhile Char.isAlpha))]

end SolidityInlay.Host.Grammar
