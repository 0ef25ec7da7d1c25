/-!
# Kinds of syntax nodes

One kind for each construct of the Java grammar that makes a node. Punctuation, operators and
keywords share the kind `literal`; which of them a leaf is, its text says.
-/
namespace Xref.Syntax

inductive Kind where
  | literal
  | program | decimalIntegerLiteral | hexIntegerLiteral | octalIntegerLiteral
  | binaryIntegerLiteral | decimalFloatingPointLiteral | hexFloatingPointLiteral | trueLiteral
  | falseLiteral | characterLiteral | stringLiteral | stringFragment | multilineStringFragment
  | stringInterpolation | escapeSequence | nullLiteral
  | castExpression | assignmentExpression | binaryExpression | instanceofExpression
  | lambdaExpression | inferredParameters | ternaryExpression | unaryExpression
  | updateExpression | arrayCreationExpression | dimensionsExpr | parenthesizedExpression
  | classLiteral | objectCreationExpression | fieldAccess | templateExpression | arrayAccess
  | methodInvocation | argumentList | methodReference | typeArguments | wildcard | dimensions
  | switchExpression | switchBlock | switchBlockStatementGroup | switchRule | switchLabel
  | pattern | typePattern | recordPattern | recordPatternBody | recordPatternComponent
  | underscorePattern | guard
  | block | expressionStatement | labeledStatement | assertStatement | doStatement
  | breakStatement | continueStatement | returnStatement | yieldStatement
  | synchronizedStatement | throwStatement | tryStatement | catchClause | catchFormalParameter
  | catchType | finallyClause | tryWithResourcesStatement | resourceSpecification | resource
  | ifStatement | whileStatement | forStatement | enhancedForStatement
  | annotationMarker | annotationUse | annotationArgumentList | elementValuePair
  | elementValueArrayInitializer
  | moduleDeclaration | moduleBody | requiresModuleDirective | requiresModifier
  | exportsModuleDirective | opensModuleDirective | usesModuleDirective
  | providesModuleDirective | packageDeclaration | importDeclaration | asterisk
  | enumDeclaration | enumBody | enumBodyDeclarations | enumConstant | classDeclaration
  | modifiers | typeParameters | typeParameter | typeBound | superclass | superInterfaces
  | typeList | permits | classBody | staticInitializer | constructorDeclaration
  | constructorBody | explicitConstructorInvocation | scopedIdentifier | fieldDeclaration
  | recordDeclaration | annotationTypeDeclaration | annotationTypeBody
  | annotationTypeElementDeclaration | interfaceDeclaration | extendsInterfaces | interfaceBody
  | constantDeclaration | variableDeclarator | arrayInitializer
  | annotatedType | scopedTypeIdentifier | genericType | arrayType | integralType
  | floatingPointType | booleanType | voidType | formalParameters | formalParameter
  | receiverParameter | spreadParameter | throwsClause | localVariableDeclaration
  | methodDeclaration | compactConstructorDeclaration | thisKeyword | superKeyword | identifier
  | typeIdentifier | lineComment | blockComment
  deriving Repr, DecidableEq, Inhabited

namespace Kind

/-- The name of a kind in the grammar, for the kinds of nodes that are treated in their own way. -/
def label : Kind → String
  | instanceofExpression => "instanceof_expression"
  | lambdaExpression => "lambda_expression"
  | objectCreationExpression => "object_creation_expression"
  | methodInvocation => "method_invocation"
  | switchBlockStatementGroup => "switch_block_statement_group"
  | switchRule => "switch_rule"
  | block => "block"
  | catchClause => "catch_clause"
  | tryWithResourcesStatement => "try_with_resources_statement"
  | resource => "resource"
  | forStatement => "for_statement"
  | enhancedForStatement => "enhanced_for_statement"
  | annotationMarker => "marker_annotation"
  | annotationUse => "annotation"
  | packageDeclaration => "package_declaration"
  | importDeclaration => "import_declaration"
  | enumDeclaration => "enum_declaration"
  | enumConstant => "enum_constant"
  | classDeclaration => "class_declaration"
  | constructorDeclaration => "constructor_declaration"
  | constructorBody => "constructor_body"
  | explicitConstructorInvocation => "explicit_constructor_invocation"
  | fieldDeclaration => "field_declaration"
  | recordDeclaration => "record_declaration"
  | annotationTypeDeclaration => "annotation_type_declaration"
  | annotationTypeElementDeclaration => "annotation_type_element_declaration"
  | interfaceDeclaration => "interface_declaration"
  | constantDeclaration => "constant_declaration"
  | localVariableDeclaration => "local_variable_declaration"
  | methodDeclaration => "method_declaration"
  | compactConstructorDeclaration => "compact_constructor_declaration"
  | _ => ""

def isComment : Kind → Bool
  | lineComment | blockComment => true
  | _ => false

def isTypeDeclaration : Kind → Bool
  | classDeclaration | interfaceDeclaration | enumDeclaration | recordDeclaration
  | annotationTypeDeclaration => true
  | _ => false

def isType : Kind → Bool
  | typeIdentifier | scopedTypeIdentifier | genericType | arrayType | integralType
  | floatingPointType | booleanType | voidType | annotatedType => true
  | _ => false

end Kind

inductive Role where
  | type | value | left | operator | right | name | pattern | parameters | body | condition
  | consequence | alternative | operand | dimensions | typeArguments | arguments | object
  | field | templateProcessor | templateArgument | array | index | init | update | resources
  | key | modifiers | module | package | modules | provided | provider | interfaces
  | typeParameters | superclass | permits | scope | constructor | element | declarator
  deriving Repr, DecidableEq, Inhabited

end Xref.Syntax
