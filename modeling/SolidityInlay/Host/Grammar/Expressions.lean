import SolidityInlay.Host.Grammar.Types

/-!
# Expressions

Operands with their accesses and calls, unary and binary operators, conditionals, assignments, arrow
functions and literals. Binary operators are read by their level. A type assertion with `as` or
`satisfies` and the postfix `!` bind looser than every binary operator that groups to the left: in
`a + b as T` the assertion covers the sum.

The left side of an assignment is read as an expression and turned into a pattern once the equals
sign is seen.

Main definitions: `expressionBody`, `binaryBody`, `unaryBody`, `operandBody`, `toPattern`.
-/

namespace SolidityInlay.Host.Grammar

/-! ## From expressions to patterns -/

mutual

/-- The pattern that is written like an expression. -/
def toPattern : Node → Node
  | .mk (.named .array) r s cs => .mk (.named .arrayPattern) r s (toPatterns cs)
  | .mk (.named .object) r s cs => .mk (.named .objectPattern) r s (toPatterns cs)
  | .mk (.named .pair) r s cs => .mk (.named .pairPattern) r s (toValuePattern cs)
  | .mk (.named .spreadElement) r s cs => .mk (.named .restPattern) r s (toPatterns cs)
  | .mk (.named .assignmentExpression) r s cs => .mk (.named .assignmentPattern) r s cs
  | .mk (.named .shorthandPropertyIdentifier) r s cs =>
    .mk (.named .shorthandPropertyIdentifierPattern) r s cs
  | n => n

def toPatterns : List Node → List Node
  | [] => []
  | n :: rest => toPattern n :: toPatterns rest

/-- The value of a pair as a pattern; its key stays as it is. -/
def toValuePattern : List Node → List Node
  | [] => []
  | [n] => [toPattern n]
  | n :: rest => n :: toValuePattern rest

end

variable (g : Rules)

/-! ## Pieces -/

def templateSubstitution : Parser Items :=
  node .templateSubstitution [adjacentMark "$\x7b", g (.expressions .inner), closeBrace]

def templateString : Parser Items :=
  node .templateString [token "\x60", templatePieces (templateSubstitution g), adjacentMark "\x60"]

def arrayLiteral : Parser Items :=
  node .array [token "[", commaList (oneOf [spread g, innerExpression g]), token "]"]

def methodDefinition : Parser Items :=
  node .methodDefinition [memberModifiers, optional (modifier "async"),
    optional (oneOf [modifier "get", modifier "set", token "*"]),
    part .name (propertyName g), optional (token "?"), callSignature g true, g .block]

def objectLiteral : Parser Items :=
  let pair := node .pair [propertyName g, token ":", part .value (innerExpression g)]
  let defaulted := node .objectAssignmentPattern [
    part .left (nameAs .shorthandPropertyIdentifierPattern), token "=",
    part .right (innerExpression g)]
  node .object [openBrace,
    commaList (oneOf [spread g, methodDefinition g, pair, defaulted,
      nameAs .shorthandPropertyIdentifier]),
    closeBrace]

def parenthesized : Parser Items :=
  node .parenthesizedExpression [token "(", g (.expressions .inner), optional (typeMark g),
    token ")"]

/-! ## Functions and classes as values -/

/-- `async` on the line of what it modifies. -/
def asyncKeyword : Parser Items := do
  let items ← keyword "async"
  seq [pure items, ensure !(← lineBreakAhead)]

def functionExpression : Parser Items := do
  let head ← seq [optional asyncKeyword, keyword "function"]
  let name := optional (part .name identifier)
  if (← operatorAhead) == "*" then
    node .generatorFunction [pure head, token "*", name, callSignature g true, g .block]
  else node .functionExpression [pure head, name, callSignature g true, g .block]

def arrowBody (mode : Mode) : Parser Items :=
  seq [token "=>", do
    if (← operatorAhead) == "\x7b" then g .block else g (.expression mode)]

/-- An arrow function on one bare name, or on parameters in parentheses. -/
def arrowFunction (mode : Mode) : Parser Items :=
  oneOf [
    node .arrowFunction [optional asyncKeyword, part .parameter (nameAs .identifier),
      arrowBody g mode],
    node .arrowFunction [optional asyncKeyword, callSignature g mode.arrowTypes,
      arrowBody g mode]]

def classHeritage : Parser Items :=
  let extended := seq [part .value (g (.operand .inner)), optional (typeArguments g)]
  let extendsClause := node .extendsClause [keyword "extends", commaList1 extended]
  let implementsClause := node .implementsClause [keyword "implements", commaList1 (g .type)]
  node .classHeritage [oneOf [seq [extendsClause, optional implementsClause], implementsClause]]

def fieldDefinition : Parser Items :=
  node .publicFieldDefinition [many (decorator g), memberModifiers, part .name (propertyName g),
    optional (oneOf [token "?", token "!"]), optional (typeMark g),
    optional (initializer g .statement)]

def classMember : Parser Items :=
  let ended := oneOf [token ",", semicolon]
  oneOf [
    token ";",
    node .classStaticBlock [keyword "static", followedBy openBrace, g .block],
    seq [many (decorator g), methodDefinition g, optional (token ";")],
    seq [indexSignature g, ended],
    seq [many (decorator g), methodSignature g .methodSignature, ended],
    seq [fieldDefinition g, ended]]

def classBody : Parser Items :=
  node .classBody [openBrace, many (classMember g), closeBrace]

/-- What follows the word `class`; a declaration has a name. -/
def classTail (name : Parser Items) : Parser Items :=
  seq [name, optional (typeParameters g), optional (classHeritage g), classBody g]

/-- A name for a class: any word but those that begin the clauses after it. -/
def className : Parser Items :=
  seq [absent (oneOf [keyword "extends", keyword "implements"]),
    part .name (nameAs .typeIdentifier)]

def classExpression : Parser Items :=
  node .classExpression [many (decorator g), keyword "class", classTail g (optional className)]

/-! ## Operands -/

/-- Whether what follows type arguments rules out that the `>` compares. -/
def endsInstantiation : Parser Items := do
  let op ← operatorAhead
  ensure ([")", "]", "\x7d", ",", ";", ":", ".", "?.", "=", "==", "===", "!=", "!==", "=>", "?",
    "&&", "||", "??", "|", "&"].contains op || (← lineBreakAhead) || (← atEnd))

/-- A dot and a name, perhaps after an optional chain. -/
def memberName : Parser Items := oneOf [privateName, anyWord .propertyIdentifier]

def access (found : Items) : Parser Items := do
  let chain := node .optionalChain [token "?."]
  match ← operatorAhead with
  | "." => node .memberExpression [pure found, token ".", memberName]
  | "?." =>
    oneOf [
      node .callExpression [pure (assign .function found), token "?.", optional (typeArguments g),
        part .arguments (callArguments g)],
      node .subscriptExpression [pure found, chain, token "[", g (.expressions .inner), token "]"],
      node .memberExpression [pure found, chain, memberName]]
  | "[" => node .subscriptExpression [pure found, token "[", g (.expressions .inner), token "]"]
  | "(" => node .callExpression [pure (assign .function found), part .arguments (callArguments g)]
  | "\x60" =>
    seq [ensure (lastKind found != some .instantiationExpression),
      node .callExpression [pure (assign .function found), part .arguments (templateString g)]]
  | "<" =>
    oneOf [
      node .callExpression [pure (assign .function found), typeArguments g,
        part .arguments (callArguments g)],
      node .instantiationExpression [pure found, typeArguments g, endsInstantiation]]
  | _ => failure

/-- A constructor call: the callee has accesses and templates but no arguments of its own. -/
def newExpression (mode : Mode) : Parser Items := do
  let calleeAccess (found : Items) : Parser Items := do
    match ← operatorAhead with
    | "." => access g found
    | "[" => access g found
    | "\x60" => access g found
    | "!" => node .nonNullExpression [pure found, token "!"]
    | _ => failure
  let callee : Parser Items := do
    let first ← oneOf [
      node .metaProperty [keyword "new", token ".", keyword "target"],
      newOperand g mode]
    iterate calleeAccess first
  node .newExpression [keyword "new", callee,
    optional (seq [typeArguments g, followedBy (token "(")]), optional (callArguments g)]
where
  /-- The operand of `new`: another `new`, or anything that is no call. -/
  newOperand (g : Rules) (mode : Mode) : Parser Items := do
    let word ← wordAhead
    if word == "new" then g (.unary mode)
    else if word == "function" || word == "async" then functionExpression g
    else if word == "class" then classExpression g
    else if word == "this" then wordAs .this word
    else if word == "super" then wordAs .super word
    else if (← operatorAhead) == "(" then parenthesized g
    else identifier

def nameOrArrow (mode : Mode) : Parser Items := do
  let name ← identifier
  if (← operatorAhead) == "=>" then
    node .arrowFunction [pure (assign .parameter name), arrowBody g mode]
  else pure name

def primary (mode : Mode) : Parser Items := do
  let next ← ahead
  let word := wordAt next
  if next.head?.any Char.isDigit then numberLiteral
  else if word == "" then
    match operatorAt next with
    | "(" => oneOf [arrowFunction g mode, parenthesized g]
    | "<" => arrowFunction g mode
    | "[" => arrayLiteral g
    | "\x7b" => objectLiteral g
    | "\x60" => templateString g
    | "\"" => stringLiteral
    | "'" => stringLiteral
    | "/" => regexLiteral
    | "/=" => regexLiteral
    | "." => numberLiteral
    | "@" => classExpression g
    | "#" => privateName
    | _ => failure
  else if word == "function" then functionExpression g
  else if word == "class" then classExpression g
  else if word == "new" then
    oneOf [node .metaProperty [keyword "new", token ".", keyword "target"], newExpression g mode]
  else if word == "this" then wordAs .this word
  else if word == "super" then wordAs .super word
  else if word == "null" then wordAs .nullLiteral word
  else if word == "true" then wordAs .trueLiteral word
  else if word == "false" then wordAs .falseLiteral word
  else if word == "import" then
    oneOf [
      node .metaProperty [keyword "import", token ".", keyword "meta"],
      wordAs .importKeyword word]
  else if word == "async" then
    oneOf [functionExpression g, arrowFunction g mode, nameOrArrow g mode]
  else if isReserved word then failure
  else nameOrArrow g mode

def operandBody (mode : Mode) : Parser Items := do
  let first ← primary g mode
  iterate (access g) first

/-! ## Unary operators -/

/-- An operand with `++` or `--` after it, if they are on one line where lines end statements. -/
def withUpdate (mode : Mode) (operand : Items) : Parser Items := do
  let after ← operatorAhead
  if ["++", "--"].contains after && !(mode.lineEnds && (← lineBreakAhead)) then
    node .updateExpression [pure operand, part .operator (token after)]
  else pure operand

/-- `as`, `satisfies` or `!` after what was found, all on one line where lines end statements. -/
def loosePostfix (mode : Mode) (found : Items) : Parser Items := do
  if mode.lineEnds && (← lineBreakAhead) then failure
  else
    let next ← ahead
    match wordAt next, operatorAt next with
    | "as", _ => node .asExpression [pure found, keyword "as", oneOf [keyword "const", g .type]]
    | "satisfies", _ => node .satisfiesExpression [pure found, keyword "satisfies", g .type]
    | _, "!" => do
      let checked ← node .nonNullExpression [pure found, token "!"]
      withUpdate mode (← iterate (access g) checked)
    | _, _ => failure

/-- An operand with the operators in front of it, and `++` or `--` after it. -/
def unaryBody (dialect : Dialect) (mode : Mode) : Parser Items := do
  let next ← ahead
  let word := wordAt next
  let op := operatorAt next
  if ["typeof", "void", "delete"].contains word then
    node .unaryExpression [part .operator (keyword word), g (.unary mode)]
  else if word == "await" then
    oneOf [
      node .awaitExpression [keyword word, do
        let argument ← g (.unary mode)
        iterate (loosePostfix g mode) argument],
      g (.operand mode)]
  else if ["!", "~", "-", "+"].contains op then
    node .unaryExpression [part .operator (token op), g (.unary mode)]
  else if ["++", "--"].contains op then
    node .updateExpression [part .operator (token op), g (.unary mode)]
  else
    let value := match op, dialect with
      | "<", .plain =>
        oneOf [g (.operand mode),
          node .typeAssertion [typeArguments g, g (.unary mode)]]
      | "<", .markup => oneOf [g (.operand mode), do
          let first ← g .element
          iterate (access g) first]
      | _, _ => g (.operand mode)
    withUpdate mode (← value)

/-! ## Binary operators -/

/-- The level of a binary operator, a higher one binding tighter; zero for everything else. -/
def binaryLevel (mode : Mode) (op word : String) : Nat :=
  match op with
  | "??" => 1
  | "||" => 2
  | "&&" => 3
  | "|" => 4
  | "^" => 5
  | "&" => 6
  | "==" => 7
  | "===" => 7
  | "!=" => 7
  | "!==" => 7
  | "<" => 8
  | ">" => 8
  | "<=" => 8
  | ">=" => 8
  | "<<" => 9
  | ">>" => 9
  | ">>>" => 9
  | "+" => 10
  | "-" => 10
  | "*" => 11
  | "/" => 11
  | "%" => 11
  | "**" => 12
  | _ => if word == "instanceof" || (word == "in" && mode.allowIn) then 8 else 0

/-- Operators of at least the given level after a first operand, grouped to the left except `**`. -/
def binaryBody (mode : Mode) (level : Nat) (loose : Bool) : Parser Items := do
  let step (left : Items) : Parser Items := do
    let next ← ahead
    let op := operatorAt next
    let word := wordAt next
    let found := binaryLevel mode op word
    if found != 0 && level ≤ found then
      let operator := if op == "" then keyword word else token op
      let right :=
        if op == "**" then g (.binary mode found true) else g (.binary mode (found + 1) false)
      node .binaryExpression [pure (assign .left left), part .operator operator, part .right right]
    else if loose then loosePostfix g mode left
    else failure
  let first ← g (.unary mode)
  iterate step first

/-! ## Conditionals and assignments -/

def augmentedOperators : List String :=
  ["+=", "-=", "*=", "/=", "%=", "^=", "&=", "|=", ">>=", ">>>=", "<<=", "**=", "&&=", "||=", "??="]

/-- The kinds that can stand on the left of an assignment. -/
def assignable : List Kind :=
  [.identifier, .undefined, .memberExpression, .subscriptExpression, .parenthesizedExpression,
   .nonNullExpression, .array, .object]

/-- The condition was read; the two outcomes follow. -/
def conditional (mode : Mode) (condition : Items) : Parser Items :=
  let outcome (m : Mode) := seq [token "?", g (.expression m), token ":"]
  node .ternaryExpression [pure condition,
    oneOf [outcome .inner, outcome { Mode.inner with arrowTypes := false }],
    g (.expression mode)]

def yieldExpression (mode : Mode) : Parser Items :=
  node .yieldExpression [keyword "yield", oneOf [
    seq [token "*", g (.expression mode)],
    do
      if mode.lineEnds && (← lineBreakAhead) then pure [] else optional (g (.expression mode))]]

def usingAssignment (mode : Mode) : Parser Items :=
  node .assignmentExpression [keyword "using", part .left identifier, token "=",
    part .right (g (.expression mode))]

/-- One expression, without a comma. -/
def expressionBody (mode : Mode) : Parser Items := do
  let word ← wordAhead
  if word == "yield" then yieldExpression g mode
  else
    let plain : Parser Items := do
      let left ← g (.binary mode 0 true)
      let op ← operatorAhead
      let target := (lastKind left).any assignable.contains
      if op == "?" then conditional g mode left
      else if op == "=" && target then
        node .assignmentExpression [pure (assign .left (rename toPattern left)), token "=",
          part .right (g (.expression mode))]
      else if augmentedOperators.contains op && target then
        node .augmentedAssignmentExpression [pure (assign .left left), part .operator (token op),
          part .right (g (.expression mode))]
      else pure left
    if word == "using" then oneOf [usingAssignment g mode, plain] else plain

/-- Expressions between commas, one node for all of them when there are several. -/
def expressionsBody (mode : Mode) : Parser Items := do
  let first ← g (.expression mode)
  if (← operatorAhead) == "," then
    node .sequenceExpression [pure first, token ",", g (.expression mode),
      many (seq [token ",", g (.expression mode)])]
  else pure first

end SolidityInlay.Host.Grammar
