import SolidityInlay.Host.Grammar.Rule

/-!
# Types

Type expressions, annotations, type parameters and the signatures of calls. Host programs are read
for their expressions only, so types matter for where they end and for the few constructs inside
them that also occur in expressions: strings, identifiers and parameters.

Main definitions: `typeBody`, `typeMark`, `typeArguments`, `callSignature`, `formalParameters`.
-/

namespace SolidityInlay.Host.Grammar

variable (g : Rules)

/-! ## Annotations and type parameters -/

def typeMark : Parser Items := node .typeMark [token ":", g .type]

def typeArguments : Parser Items :=
  node .typeArguments [mark "<", commaList1 (g .type), mark ">"]

def typeParameter : Parser Items :=
  node .typeParameter [
    optional (modifier "const"),
    optional (modifier "in"),
    optional (modifier "out"),
    nameAs .typeIdentifier,
    optional (node .constraint [oneOf [keyword "extends", token ":"], g .type]),
    optional (node .defaultType [token "=", g .type])]

def typeParameters : Parser Items :=
  node .typeParameters [mark "<", commaList1 (typeParameter g), mark ">"]

/-! ## Patterns that bind names -/

def initializer (mode : Mode) : Parser Items :=
  seq [token "=", part .value (g (.expression mode))]

/-- A pattern with an optional default, which makes it a node of its own. -/
def withDefault (kind : Kind) (p : Parser Items) : Parser Items := do
  let left ← p
  if (← operatorAhead) == "=" then
    node kind [pure (assign .left left), token "=", part .right (innerExpression g)]
  else pure left

def arrayPattern : Parser Items :=
  node .arrayPattern
    [token "[", commaList (withDefault g .assignmentPattern (g .pattern)), token "]"]

def objectPattern : Parser Items :=
  let shorthand := nameAs .shorthandPropertyIdentifierPattern
  let pair := node .pairPattern [propertyName g, token ":",
    part .value (withDefault g .assignmentPattern (g .pattern))]
  node .objectPattern [openBrace,
    commaList (oneOf [
      node .restPattern [token "...", g .pattern],
      pair,
      withDefault g .objectAssignmentPattern shorthand]),
    closeBrace]

/-- What a declaration can bind: a name or a destructuring pattern. -/
def bindingTarget : Parser Items := oneOf [identifier, objectPattern g, arrayPattern g]

def patternBody : Parser Items :=
  oneOf [node .restPattern [token "...", g .pattern], bindingTarget g]

/-! ## Parameters and signatures -/

def spread : Parser Items := node .spreadElement [token "...", innerExpression g]

def callArguments : Parser Items :=
  node .arguments [token "(", commaList (oneOf [spread g, innerExpression g]), token ")"]

/-- A name, perhaps with dots and a call, after an at sign. -/
def decorator : Parser Items :=
  let access (found : Items) : Parser Items := do
    match ← operatorAhead with
    | "." => node .memberExpression [pure found, token ".", anyWord .propertyIdentifier]
    | "(" => node .callExpression [pure (assign .function found), part .arguments (callArguments g)]
    | "<" =>
      node .callExpression [pure (assign .function found), typeArguments g,
        part .arguments (callArguments g)]
    | _ => failure
  let parenthesized := node .parenthesizedExpression [token "(", innerExpression g, token ")"]
  node .decorator [token "@", do
    let first ← oneOf [identifier, parenthesized]
    iterate access first]

def accessibility : Parser Items :=
  node .accessibilityModifier [oneOf [modifier "public", modifier "private", modifier "protected"]]

def overrideModifier : Parser Items := wordAs .overrideModifier "override"

/-- One parameter; a question mark makes it optional. -/
def parameter : Parser Items := do
  let target := part .pattern (oneOf [wordAs .this "this", g .pattern])
  let modifiers := seq [optional (accessibility), optional (modifier "override"),
    optional (modifier "readonly")]
  let head ← seq [many (decorator g), oneOf [seq [modifiers, target], target]]
  let tail := seq [optional (typeMark g), optional (initializer g .inner)]
  if (← operatorAhead) == "?" then
    node .optionalParameter [pure head, token "?", tail]
  else node .requiredParameter [pure head, tail]

def formalParameters : Parser Items :=
  node .formalParameters [token "(", optional (commaList1 (parameter g)), token ")"]

/-- A type guard such as `x is T`. -/
def typePredicate : Parser Items :=
  node .typePredicate [oneOf [wordAs .this "this", identifier], keyword "is", g .type]

def asserts : Parser Items :=
  node .asserts [keyword "asserts",
    oneOf [typePredicate g, wordAs .this "this", seq [ensureNoBreak, identifier]]]
where
  ensureNoBreak : Parser Items := do ensure !(← lineBreakAhead)

def returnMark : Parser Items :=
  oneOf [
    node .assertsMark [token ":", asserts g],
    node .typePredicateMark [token ":", typePredicate g],
    typeMark g]

def callSignature (result : Bool) : Parser Items :=
  seq [optional (typeParameters g), part .parameters (formalParameters g),
    if result then optional (returnMark g) else pure []]

/-! ## Members of object types -/

/-- The brackets of an index signature: a key with its type, or a clause mapping over one. -/
def indexSignature : Parser Items :=
  let sign := optional (oneOf [token "+", token "-"])
  let readonly := optional (seq [sign, keyword "readonly"])
  let mapped := node .mappedTypeClause [nameAs .typeIdentifier, keyword "in", g .type,
    optional (seq [keyword "as", g .type])]
  let key := seq [identifier, token ":", g .type]
  let annotation := oneOf [
    node .omittingTypeMark [token "-", token "?", token ":", g .type],
    node .addingTypeMark [token "+", token "?", token ":", g .type],
    node .optingTypeMark [token "?", token ":", g .type],
    typeMark g]
  node .indexSignature [readonly, token "[", oneOf [mapped, key], token "]", optional annotation]

def memberModifiers : Parser Items :=
  many (oneOf [accessibility, modifier "static", wordModifier "override", modifier "readonly",
    modifier "declare", modifier "abstract", modifier "accessor"])
where
  wordModifier (w : String) : Parser Items := do
    seq [followedBy (modifier w), overrideModifier]

/-- A method without a body. -/
def methodSignature (kind : Kind) : Parser Items :=
  node kind [memberModifiers, optional (modifier "async"),
    optional (oneOf [modifier "get", modifier "set", token "*"]),
    part .name (propertyName g), optional (token "?"), callSignature g true]

def propertySignature : Parser Items :=
  node .propertySignature [memberModifiers, part .name (propertyName g), optional (token "?"),
    optional (typeMark g)]

def typeMember : Parser Items :=
  oneOf [
    node .constructSignature [optional (keyword "abstract"), keyword "new", callSignature g true],
    node .callSignature [callSignature g true],
    indexSignature g,
    methodSignature g .methodSignature,
    propertySignature g]

/-- Members in braces, ended by commas, semicolons or lines. -/
def memberBlock (kind : Kind) : Parser Items :=
  node kind [openBrace,
    many (oneOf [token ",", token ";", seq [typeMember g, oneOf [token ",", semicolon]]]),
    closeBrace]

/-! ## Type expressions -/

def predefinedTypes : List String :=
  ["any", "number", "boolean", "string", "symbol", "void", "unknown", "never", "object"]

def typeReference : Parser Items := do
  let qualify (found : Items) : Parser Items := do
    if (← operatorAhead) == "." then
      let left := rename (fun n =>
        if n.is .typeIdentifier then n.relabel .identifier
        else if n.is .nestedTypeIdentifier then n.relabel .nestedIdentifier else n) found
      node .nestedTypeIdentifier [pure left, token ".", anyWord .typeIdentifier]
    else failure
  let name ← nameAs .typeIdentifier
  let name ← iterate qualify name
  if (← operatorAhead) == "<" && !(← lineBreakAhead) then
    oneOf [node .genericType [pure name, typeArguments g], pure name]
  else pure name

/-- The operand of `typeof` in a type. -/
def typeQuery : Parser Items :=
  let access (found : Items) : Parser Items := do
    match ← operatorAhead with
    | "." =>
      node .memberExpression [pure found, token ".",
        oneOf [privateName, anyWord .propertyIdentifier]]
    | "?." =>
      node .memberExpression [pure found, node .optionalChain [token "?."],
        oneOf [privateName, anyWord .propertyIdentifier]]
    | "<" => node .instantiationExpression [pure found, typeArguments g]
    | "(" =>
      node .callExpression [pure found, node .arguments [token "(",
        commaList (innerExpression g), token ")"]]
    | _ => failure
  let first := oneOf [
    wordAs .this "this",
    node .callExpression [wordAs .importKeyword "import",
      node .arguments [token "(", commaList (innerExpression g), token ")"]],
    identifier]
  node .typeQuery [keyword "typeof", do
    let found ← first
    iterate access found]

def templateLiteralType : Parser Items :=
  node .templateLiteralType [token "\x60",
    templatePieces (node .templateType [adjacentMark "$\x7b", g .type, closeBrace]),
    adjacentMark "\x60"]

/-- A member of a tuple: named, optional, spread or plain. -/
def tupleMember : Parser Items :=
  let name := nameAs .identifier
  oneOf [
    node .requiredParameter [name, typeMark g],
    node .optionalParameter [name, token "?", typeMark g],
    node .requiredParameter [node .restPattern [token "...", name], typeMark g],
    node .restType [token "...", g .type],
    node .optionalType [g .type, token "?"],
    g .type]

/-- Types that need no parentheses inside other types. -/
def atomicType : Parser Items := do
  let next ← ahead
  let word := wordAt next
  let op := operatorAt next
  if next.head?.any Char.isDigit then node .literalType [numberLiteral]
  else match op with
  | "(" => node .parenthesizedType [token "(", g .type, token ")"]
  | "[" => node .tupleType [token "[", commaList (tupleMember g), token "]"]
  | "\x7b" => memberBlock g .objectType
  | "\x60" => templateLiteralType g
  | "*" => node .existentialType [token "*"]
  | "?" => node .flowMaybeType [token "?", g .primaryType]
  | "-" => node .literalType [node .unaryExpression [part .operator (token "-"), numberLiteral]]
  | "+" => node .literalType [node .unaryExpression [part .operator (token "+"), numberLiteral]]
  | "\"" => node .literalType [stringLiteral]
  | "'" => node .literalType [stringLiteral]
  | _ =>
    if word == "typeof" then typeQuery g
    else if word == "this" then node .thisType [keyword "this"]
    else if word == "true" then node .literalType [wordAs .trueLiteral word]
    else if word == "false" then node .literalType [wordAs .falseLiteral word]
    else if word == "null" then node .literalType [wordAs .nullLiteral word]
    else if word == "undefined" then node .literalType [wordAs .undefined word]
    else if word == "import" then
      seq [keyword "import", token "(", innerExpression g, token ")",
        optional (seq [token ".", typeReference g])]
    else oneOf [
      if word == "unique" then node .predefinedType [keyword "unique", keyword "symbol"]
      else failure,
      if predefinedTypes.contains word then
        seq [node .predefinedType [keyword word], absent (token ".")]
      else failure,
      if word == "const" then keyword "const" else failure,
      typeReference g]

/-- An atomic type with its array and index suffixes, or behind a type operator. -/
def primaryTypeBody : Parser Items := do
  let suffix (found : Items) : Parser Items := do
    if (← operatorAhead) == "[" && !(← lineBreakAhead) then
      oneOf [
        node .arrayType [pure found, token "[", token "]"],
        node .lookupType [pure found, token "[", g .type, token "]"]]
    else failure
  let operator := oneOf [
    node .readonlyType [keyword "readonly", g .primaryType],
    node .indexTypeQuery [keyword "keyof", g .primaryType],
    node .inferType [keyword "infer", nameAs .typeIdentifier,
      optional (seq [keyword "extends", g .type])]]
  oneOf [operator, do
    let found ← atomicType g
    iterate suffix found]

/-- A chain of types around one operator, nested to the left; the operator may also stand first. -/
def typeChain (op : String) (kind : Kind) (p : Parser Items) : Parser Items := do
  let step (found : Items) : Parser Items := node kind [pure found, token op, p]
  let first ← if (← operatorAhead) == op then node kind [token op, p] else p
  iterate step first

def functionType : Parser Items :=
  let result := oneOf [asserts g, typePredicate g, g .type]
  let signature := callSignature g false
  oneOf [
    node .functionType [signature, token "=>", result],
    node .constructorType [optional (keyword "abstract"), keyword "new", signature, token "=>",
      g .type]]

def typeBody : Parser Items := do
  let union := typeChain "|" .unionType
    (typeChain "&" .intersectionType (oneOf [functionType g, g .primaryType]))
  let left ← union
  if (← wordAhead) == "extends" && !(← lineBreakAhead) then
    oneOf [
      node .conditionalType [pure left, keyword "extends", g .type, token "?", g .type, token ":",
        g .type],
      pure left]
  else pure left

end SolidityInlay.Host.Grammar
