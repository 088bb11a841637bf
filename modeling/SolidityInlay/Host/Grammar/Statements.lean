import SolidityInlay.Host.Grammar.Elements

/-!
# Statements and declarations

Statements, declarations, imports and exports, and whole files. A statement ends at a semicolon, or
where one may be left out: before a closing brace, at the end of a line, at the end of the text.

Text that is no statement is skipped one token at a time, so that reading always reaches the end.

Main definitions: `statementBody`, `blockBody`, `programItems`.
-/

namespace SolidityInlay.Host.Grammar

variable (g : Rules)

/-! ## Variables, functions, classes -/

def declarator (mode : Mode) : Parser Items :=
  node .variableDeclarator [part .name (bindingTarget g), optional (token "!"),
    optional (typeMark g), optional (initializer g mode)]

def declarators (mode : Mode) : Parser Items :=
  seq [declarator g mode, many (seq [token ",", declarator g mode])]

def declaredVariables (mode : Mode) (ending : Parser Items) : Parser Items := do
  let word ← wordAhead
  if word == "var" then
    node .variableDeclaration [keyword word, declarators g mode, ending]
  else if word == "let" || word == "const" then
    node .lexicalDeclaration [keyword word, declarators g mode, ending]
  else failure

/-- A function declaration; without a body it is a signature. -/
def functionDeclaration : Parser Items := do
  let head ← seq [optional asyncKeyword, keyword "function"]
  let star := (← operatorAhead) == "*"
  let signature ← seq [pure head, optional (token "*"), part .name identifier, callSignature g true]
  if (← operatorAhead) == "\x7b" then
    node (if star then .generatorFunctionDeclaration else .functionDeclaration)
      [pure signature, g .block]
  else node .functionSignature [pure signature, semicolon]

def classDeclaration : Parser Items := do
  let decorators ← many (decorator g)
  let word ← wordAhead
  if word == "abstract" then
    node .abstractClassDeclaration [pure decorators, keyword word, keyword "class",
      classTail g className]
  else node .classDeclaration [pure decorators, keyword "class", classTail g className]

/-! ## Types, enumerations, modules -/

def typeAlias : Parser Items :=
  node .typeAliasDeclaration [keyword "type", part .name (nameAs .typeIdentifier),
    optional (typeParameters g), token "=", g .type, semicolon]

def interfaceDeclaration : Parser Items :=
  node .interfaceDeclaration [keyword "interface", part .name (nameAs .typeIdentifier),
    optional (typeParameters g),
    optional (node .extendsTypeClause [keyword "extends", commaList1 (typeReference g)]),
    memberBlock g .interfaceBody]

def enumDeclaration : Parser Items :=
  let member := oneOf [
    node .enumAssignment [part .name (propertyName g), initializer g .inner],
    propertyName g]
  node .enumDeclaration [optional (keyword "const"), keyword "enum", part .name identifier,
    node .enumBody [openBrace, optional (commaList1 member), closeBrace]]

def dottedName : Parser Items := do
  let step (found : Items) : Parser Items := do
    if (← operatorAhead) == "." then
      node .nestedIdentifier [pure found, token ".", anyWord .propertyIdentifier]
    else failure
  let first ← identifier
  iterate step first

def moduleTail : Parser Items :=
  seq [part .name (oneOf [stringLiteral, dottedName]), optional (g .block)]

def moduleDeclaration : Parser Items :=
  node .moduleDeclaration [keyword "module", moduleTail g]

def namespaceStatement : Parser Items :=
  node .expressionStatement [node .internalModule [keyword "namespace", moduleTail g],
    optional (token ";")]

def ambientDeclaration (declaration : Parser Items) : Parser Items :=
  node .ambientDeclaration [keyword "declare", oneOf [
    seq [keyword "global", g .block],
    declaration,
    node .internalModule [keyword "namespace", moduleTail g]]]

/-- `import a = b;`, also behind `export`. -/
def importAlias : Parser Items :=
  node .importAlias [keyword "import", identifier, token "=", dottedName, semicolon]

/-- All declarations, `declare` included. -/
def declaration : Parser Items :=
  let plain := oneOf [
    functionDeclaration g,
    classDeclaration g,
    moduleDeclaration g,
    typeAlias g,
    enumDeclaration g,
    interfaceDeclaration g,
    importAlias,
    declaredVariables g .statement semicolon]
  oneOf [plain, ambientDeclaration g plain]

/-! ## Imports and exports -/

def moduleExportName (kind : Kind) : Parser Items := oneOf [anyWord kind, stringLiteral]

/-- `a`, `a as b` or `type a` between braces. -/
def specifier (kind : Kind) : Parser Items :=
  let name := part .name (moduleExportName .identifier)
  let plain := seq [name, optional (seq [keyword "as", moduleExportName .identifier])]
  let typed (w : String) := seq [keyword w, absent (keyword "as"), plain]
  oneOf [
    node kind [typed "type", followedBy (oneOf [token ",", closeBrace])],
    node kind [typed "typeof", followedBy (oneOf [token ",", closeBrace])],
    node kind [plain]]

def fromClause : Parser Items := seq [keyword "from", stringLiteral]

def importAttribute : Parser Items :=
  node .importAttribute [oneOf [keyword "with", keyword "assert"], objectLiteral g]

def importClause : Parser Items :=
  let all := node .namespaceImport [token "*", keyword "as", identifier]
  let named := node .namedImports [openBrace, commaList (specifier .importSpecifier), closeBrace]
  let first := seq [absent (keyword "from"), identifier]
  let default := oneOf [first, identifier]
  node .importClause [oneOf [all, named,
    seq [default, optional (seq [token ",", oneOf [all, named]])]]]

def importStatement : Parser Items :=
  let require := node .importRequireClause [identifier, token "=", keyword "require", token "(",
    stringLiteral, token ")"]
  let body (head : Parser Items) := node .importStatement [keyword "import", head,
    oneOf [require, seq [importClause, fromClause], stringLiteral], optional (importAttribute g),
    semicolon]
  oneOf [body (pure []), body (keyword "type"), body (keyword "typeof")]

def exportStatement : Parser Items :=
  let clause := node .exportClause [openBrace, commaList (specifier .exportSpecifier), closeBrace]
  let all := node .namespaceExport [token "*", keyword "as", moduleExportName .identifier]
  let from' := seq [fromClause, optional (importAttribute g)]
  let declared := part .declaration (declaration g)
  let rest := oneOf [
    seq [token "*", from', semicolon],
    seq [all, from', semicolon],
    seq [clause, optional from', semicolon],
    seq [keyword "type", oneOf [
      seq [clause, optional from', semicolon],
      seq [token "*", optional (seq [keyword "as", identifier]), from', semicolon]]],
    seq [token "=", g (.expression .statement), semicolon],
    seq [keyword "as", keyword "namespace", identifier, semicolon],
    seq [keyword "default", oneOf [
      declared,
      seq [part .value (g (.expression .statement)), semicolon]]],
    declared,
    part .declaration (node .internalModule [keyword "namespace", moduleTail g])]
  node .exportStatement [many (decorator g), keyword "export", rest]

/-! ## Control flow -/

def ifStatement : Parser Items :=
  node .ifStatement [keyword "if", parenthesized g, g .statement,
    optional (node .elseClause [keyword "else", g .statement])]

/-- What a `for` loop over a collection binds or assigns. -/
def forTarget : Parser Items := do
  let word ← wordAhead
  let declared : Parser Items :=
    seq [keyword word, part .left (bindingTarget g),
      if word == "var" then optional (initializer g .forHead) else pure []]
  let assigned := part .left (rename toPattern <$> g (.operand .forHead))
  if ["var", "let", "const"].contains word then oneOf [declared, assigned] else assigned

def forInStatement : Parser Items :=
  node .forInStatement [keyword "for", optional (keyword "await"), token "(", forTarget g,
    part .operator (oneOf [keyword "in", keyword "of"]), part .right (g (.expressions .inner)),
    token ")", g .statement]

def forStatement : Parser Items :=
  let empty := node .emptyStatement [token ";"]
  let condition := oneOf [empty, seq [g (.expressions .inner), token ";"]]
  node .forStatement [keyword "for", token "(",
    oneOf [
      part .initializer empty,
      part .initializer (declaredVariables g .forHead (token ";")),
      seq [part .initializer (g (.expressions .forHead)), token ";"]],
    condition, optional (g (.expressions .inner)), token ")", g .statement]

def switchStatement : Parser Items :=
  let body := many (g .statement)
  let clause := oneOf [
    node .switchCase [keyword "case", part .value (g (.expressions .inner)), token ":", body],
    node .switchDefault [keyword "default", token ":", body]]
  node .switchStatement [keyword "switch", part .value (parenthesized g),
    node .switchBody [openBrace, many clause, closeBrace]]

def tryStatement : Parser Items :=
  let caught := seq [token "(", part .parameter (bindingTarget g), optional (typeMark g),
    token ")"]
  node .tryStatement [keyword "try", g .block,
    optional (node .catchClause [keyword "catch", optional caught, g .block]),
    optional (node .finallyClause [keyword "finally", g .block])]

/-- A jump, perhaps to a label on the same line. -/
def jump (kind : Kind) (w : String) : Parser Items :=
  let label : Parser Items := do
    if ← lineBreakAhead then pure [] else optional (nameAs .statementIdentifier)
  node kind [keyword w, label, semicolon]

/-- A word with an operand, which `return` may lack. -/
def withOperand (kind : Kind) (w : String) : Parser Items :=
  let operand : Parser Items := do
    if ← lineBreakAhead then pure [] else optional (g (.expressions .statement))
  node kind [keyword w, operand, semicolon]

def expressionStatement : Parser Items :=
  node .expressionStatement [g (.expressions .statement), semicolon]

def labeledStatement : Parser Items :=
  node .labeledStatement [nameAs .statementIdentifier, token ":", g .statement]

/-- The statements that begin with their own word or mark, then all the others. -/
def statementBody : Parser Items := do
  let next ← ahead
  let word := wordAt next
  let other := oneOf [labeledStatement g, expressionStatement g]
  if word == "" then
    match operatorAt next with
    | "\x7b" => g .block
    | ";" => node .emptyStatement [token ";"]
    | "@" => oneOf [exportStatement g, classDeclaration g, expressionStatement g]
    | _ => expressionStatement g
  else match word with
  | "if" => ifStatement g
  | "for" => oneOf [forInStatement g, forStatement g]
  | "while" => node .whileStatement [keyword word, parenthesized g, g .statement]
  | "do" =>
    node .doStatement [keyword word, g .statement, keyword "while", parenthesized g,
      optional (token ";")]
  | "switch" => switchStatement g
  | "try" => tryStatement g
  | "with" => node .withStatement [keyword word, parenthesized g, g .statement]
  | "break" => jump .breakStatement word
  | "continue" => jump .continueStatement word
  | "debugger" => node .debuggerStatement [keyword word, semicolon]
  | "return" => withOperand g .returnStatement word
  | "throw" => withOperand g .throwStatement word
  | "import" => oneOf [importStatement g, importAlias, expressionStatement g]
  | "export" => oneOf [exportStatement g, other]
  | "namespace" => oneOf [namespaceStatement g, other]
  | _ =>
    if ["function", "async", "class", "abstract", "module", "type", "enum", "const", "interface",
        "let", "var", "declare"].contains word then
      oneOf [declaration g, other]
    else other

def blockBody : Parser Items :=
  node .statementBlock [openBrace, many (g .statement), closeBrace]

/-! ## Whole files -/

/-- One token that is no part of any statement. -/
def strayToken : Parser Items :=
  node .error [lexeme (.named .error) fun cs => max 1 (wordLength cs) * min 1 cs.length]

/-- The first line of a script, when it names the program that runs it. -/
def hashBangLine : Parser Items :=
  lexeme (.named .hashBangLine) fun
    | '#' :: '!' :: cs => 2 + countWhile (· != '\n') cs
    | _ => 0

def programItems : Parser Items :=
  seq [optional hashBangLine, many (oneOf [g .statement, strayToken])]

end SolidityInlay.Host.Grammar
