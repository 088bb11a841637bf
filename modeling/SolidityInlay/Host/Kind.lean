/-!
# Kinds of host nodes

The named kinds of nodes in the concrete tree of a TypeScript or TSX file, each with the name under
which tree queries know it, and the roles a child may play in its parent.

Main definitions: `Kind`, `Kind.name`, `Label`, `Role`.
-/

namespace SolidityInlay.Host

inductive Kind where
  | abstractClassDeclaration | abstractMethodSignature | accessibilityModifier | addingTypeMark
  | ambientDeclaration | arguments | array | arrayPattern | arrayType | arrowFunction | asExpression
  | asserts | assertsMark | assignmentExpression | assignmentPattern | augmentedAssignmentExpression
  | awaitExpression | binaryExpression | breakStatement | callExpression | callSignature
  | catchClause | classExpression | classBody | classDeclaration | classHeritage | classStaticBlock
  | comment | computedPropertyName | conditionalType | constraint | constructSignature
  | constructorType | continueStatement | debuggerStatement | decorator | defaultType | doStatement
  | elseClause | emptyStatement | enumAssignment | enumBody | enumDeclaration | error
  | escapeSequence | existentialType | exportClause | exportSpecifier | exportStatement
  | expressionStatement | extendsClause | extendsTypeClause | falseLiteral | finallyClause
  | flowMaybeType | forInStatement | forStatement | formalParameters | functionDeclaration
  | functionExpression | functionSignature | functionType | generatorFunction
  | generatorFunctionDeclaration | genericType | hashBangLine | htmlCharacterReference | identifier
  | ifStatement | implementsClause | importKeyword | importAlias | importAttribute | importClause
  | importRequireClause | importSpecifier | importStatement | indexSignature | indexTypeQuery
  | inferType | instantiationExpression | interfaceBody | interfaceDeclaration | internalModule
  | intersectionType | jsxAttribute | jsxClosingElement | jsxElement | jsxExpression
  | jsxNamespaceName | jsxOpeningElement | jsxSelfClosingElement | jsxText | labeledStatement
  | lexicalDeclaration | literalType | lookupType | mappedTypeClause | memberExpression
  | metaProperty | methodDefinition | methodSignature | moduleDeclaration | namedImports
  | namespaceExport | namespaceImport | nestedIdentifier | nestedTypeIdentifier | newExpression
  | nonNullExpression | nullLiteral | number | object | objectAssignmentPattern | objectPattern
  | objectType | omittingTypeMark | optingTypeMark | optionalChain | optionalParameter
  | optionalType | overrideModifier | pair | pairPattern | parenthesizedExpression
  | parenthesizedType | predefinedType | privatePropertyIdentifier | program | propertyIdentifier
  | propertySignature | publicFieldDefinition | readonlyType | regex | regexFlags | regexPattern
  | requiredParameter | restPattern | restType | returnStatement | satisfiesExpression
  | sequenceExpression | shorthandPropertyIdentifier | shorthandPropertyIdentifierPattern
  | spreadElement | statementBlock | statementIdentifier | string | stringFragment
  | subscriptExpression | super | switchBody | switchCase | switchDefault | switchStatement
  | templateLiteralType | templateString | templateSubstitution | templateType | ternaryExpression
  | this | thisType | throwStatement | trueLiteral | tryStatement | tupleType | typeAliasDeclaration
  | typeMark | typeArguments | typeAssertion | typeIdentifier | typeParameter | typeParameters
  | typePredicate | typePredicateMark | typeQuery | unaryExpression | undefined | unionType
  | updateExpression | variableDeclaration | variableDeclarator | whileStatement | withStatement
  | yieldExpression
deriving DecidableEq, Repr

def Kind.name : Kind → String
  | .abstractClassDeclaration => "abstract_class_declaration"
  | .abstractMethodSignature => "abstract_method_signature"
  | .accessibilityModifier => "accessibility_modifier"
  | .addingTypeMark => "adding_type_annotation"
  | .ambientDeclaration => "ambient_declaration"
  | .arguments => "arguments"
  | .array => "array"
  | .arrayPattern => "array_pattern"
  | .arrayType => "array_type"
  | .arrowFunction => "arrow_function"
  | .asExpression => "as_expression"
  | .asserts => "asserts"
  | .assertsMark => "asserts_annotation"
  | .assignmentExpression => "assignment_expression"
  | .assignmentPattern => "assignment_pattern"
  | .augmentedAssignmentExpression => "augmented_assignment_expression"
  | .awaitExpression => "await_expression"
  | .binaryExpression => "binary_expression"
  | .breakStatement => "break_statement"
  | .callExpression => "call_expression"
  | .callSignature => "call_signature"
  | .catchClause => "catch_clause"
  | .classExpression => "class"
  | .classBody => "class_body"
  | .classDeclaration => "class_declaration"
  | .classHeritage => "class_heritage"
  | .classStaticBlock => "class_static_block"
  | .comment => "comment"
  | .computedPropertyName => "computed_property_name"
  | .conditionalType => "conditional_type"
  | .constraint => "constraint"
  | .constructSignature => "construct_signature"
  | .constructorType => "constructor_type"
  | .continueStatement => "continue_statement"
  | .debuggerStatement => "debugger_statement"
  | .decorator => "decorator"
  | .defaultType => "default_type"
  | .doStatement => "do_statement"
  | .elseClause => "else_clause"
  | .emptyStatement => "empty_statement"
  | .enumAssignment => "enum_assignment"
  | .enumBody => "enum_body"
  | .enumDeclaration => "enum_declaration"
  | .error => "ERROR"
  | .escapeSequence => "escape_sequence"
  | .existentialType => "existential_type"
  | .exportClause => "export_clause"
  | .exportSpecifier => "export_specifier"
  | .exportStatement => "export_statement"
  | .expressionStatement => "expression_statement"
  | .extendsClause => "extends_clause"
  | .extendsTypeClause => "extends_type_clause"
  | .falseLiteral => "false"
  | .finallyClause => "finally_clause"
  | .flowMaybeType => "flow_maybe_type"
  | .forInStatement => "for_in_statement"
  | .forStatement => "for_statement"
  | .formalParameters => "formal_parameters"
  | .functionDeclaration => "function_declaration"
  | .functionExpression => "function_expression"
  | .functionSignature => "function_signature"
  | .functionType => "function_type"
  | .generatorFunction => "generator_function"
  | .generatorFunctionDeclaration => "generator_function_declaration"
  | .genericType => "generic_type"
  | .hashBangLine => "hash_bang_line"
  | .htmlCharacterReference => "html_character_reference"
  | .identifier => "identifier"
  | .ifStatement => "if_statement"
  | .implementsClause => "implements_clause"
  | .importKeyword => "import"
  | .importAlias => "import_alias"
  | .importAttribute => "import_attribute"
  | .importClause => "import_clause"
  | .importRequireClause => "import_require_clause"
  | .importSpecifier => "import_specifier"
  | .importStatement => "import_statement"
  | .indexSignature => "index_signature"
  | .indexTypeQuery => "index_type_query"
  | .inferType => "infer_type"
  | .instantiationExpression => "instantiation_expression"
  | .interfaceBody => "interface_body"
  | .interfaceDeclaration => "interface_declaration"
  | .internalModule => "internal_module"
  | .intersectionType => "intersection_type"
  | .jsxAttribute => "jsx_attribute"
  | .jsxClosingElement => "jsx_closing_element"
  | .jsxElement => "jsx_element"
  | .jsxExpression => "jsx_expression"
  | .jsxNamespaceName => "jsx_namespace_name"
  | .jsxOpeningElement => "jsx_opening_element"
  | .jsxSelfClosingElement => "jsx_self_closing_element"
  | .jsxText => "jsx_text"
  | .labeledStatement => "labeled_statement"
  | .lexicalDeclaration => "lexical_declaration"
  | .literalType => "literal_type"
  | .lookupType => "lookup_type"
  | .mappedTypeClause => "mapped_type_clause"
  | .memberExpression => "member_expression"
  | .metaProperty => "meta_property"
  | .methodDefinition => "method_definition"
  | .methodSignature => "method_signature"
  | .moduleDeclaration => "module"
  | .namedImports => "named_imports"
  | .namespaceExport => "namespace_export"
  | .namespaceImport => "namespace_import"
  | .nestedIdentifier => "nested_identifier"
  | .nestedTypeIdentifier => "nested_type_identifier"
  | .newExpression => "new_expression"
  | .nonNullExpression => "non_null_expression"
  | .nullLiteral => "null"
  | .number => "number"
  | .object => "object"
  | .objectAssignmentPattern => "object_assignment_pattern"
  | .objectPattern => "object_pattern"
  | .objectType => "object_type"
  | .omittingTypeMark => "omitting_type_annotation"
  | .optingTypeMark => "opting_type_annotation"
  | .optionalChain => "optional_chain"
  | .optionalParameter => "optional_parameter"
  | .optionalType => "optional_type"
  | .overrideModifier => "override_modifier"
  | .pair => "pair"
  | .pairPattern => "pair_pattern"
  | .parenthesizedExpression => "parenthesized_expression"
  | .parenthesizedType => "parenthesized_type"
  | .predefinedType => "predefined_type"
  | .privatePropertyIdentifier => "private_property_identifier"
  | .program => "program"
  | .propertyIdentifier => "property_identifier"
  | .propertySignature => "property_signature"
  | .publicFieldDefinition => "public_field_definition"
  | .readonlyType => "readonly_type"
  | .regex => "regex"
  | .regexFlags => "regex_flags"
  | .regexPattern => "regex_pattern"
  | .requiredParameter => "required_parameter"
  | .restPattern => "rest_pattern"
  | .restType => "rest_type"
  | .returnStatement => "return_statement"
  | .satisfiesExpression => "satisfies_expression"
  | .sequenceExpression => "sequence_expression"
  | .shorthandPropertyIdentifier => "shorthand_property_identifier"
  | .shorthandPropertyIdentifierPattern => "shorthand_property_identifier_pattern"
  | .spreadElement => "spread_element"
  | .statementBlock => "statement_block"
  | .statementIdentifier => "statement_identifier"
  | .string => "string"
  | .stringFragment => "string_fragment"
  | .subscriptExpression => "subscript_expression"
  | .super => "super"
  | .switchBody => "switch_body"
  | .switchCase => "switch_case"
  | .switchDefault => "switch_default"
  | .switchStatement => "switch_statement"
  | .templateLiteralType => "template_literal_type"
  | .templateString => "template_string"
  | .templateSubstitution => "template_substitution"
  | .templateType => "template_type"
  | .ternaryExpression => "ternary_expression"
  | .this => "this"
  | .thisType => "this_type"
  | .throwStatement => "throw_statement"
  | .trueLiteral => "true"
  | .tryStatement => "try_statement"
  | .tupleType => "tuple_type"
  | .typeAliasDeclaration => "type_alias_declaration"
  | .typeMark => "type_annotation"
  | .typeArguments => "type_arguments"
  | .typeAssertion => "type_assertion"
  | .typeIdentifier => "type_identifier"
  | .typeParameter => "type_parameter"
  | .typeParameters => "type_parameters"
  | .typePredicate => "type_predicate"
  | .typePredicateMark => "type_predicate_annotation"
  | .typeQuery => "type_query"
  | .unaryExpression => "unary_expression"
  | .undefined => "undefined"
  | .unionType => "union_type"
  | .updateExpression => "update_expression"
  | .variableDeclaration => "variable_declaration"
  | .variableDeclarator => "variable_declarator"
  | .whileStatement => "while_statement"
  | .withStatement => "with_statement"
  | .yieldExpression => "yield_expression"

/-- What a node is: a construct of the grammar, or a literal token such as `const` or `+`. -/
inductive Label where
  | named (kind : Kind)
  | token (text : String)
deriving DecidableEq, Repr

/-- The part a child plays in its parent, where the grammar tells its children apart. -/
inductive Role where
  | arguments | declaration | function | initializer | left | name | operator | parameter
  | parameters | pattern | right | value
deriving DecidableEq, Repr

end SolidityInlay.Host
