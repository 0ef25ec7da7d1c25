import Xref.Syntax.Grammar.Declarations

/-!
# Statements

Where both a declaration and an expression can be read, the declaration counts. A statement that
begins with `yield` yields a value if it can, and what can be a package and a variable is
a variable; for the last statement of a unit it is the other way round.
-/
namespace Xref.Syntax.Grammar

open Rule

def blockRule : G := node .block (braces (many (call (.statement true))))

def condition : G := role .condition (call .parenthesized)

def localVariables (words : List String) : G :=
  variableDeclaration .localVariableDeclaration words

/-- Words that begin no type at the beginning of a statement. -/
def firstWords : List String := statementWords ++ typeWords

/-- Words that begin no type after a single annotation. -/
def unitWords : List String := ["open", "module", "package"]

/-- Nothing, unless `sealed` is the left side of a test. -/
def notSealedTest : G := notAhead (seq (kw "sealed") (kw "instanceof"))

/-- The first rule, or else the second. The second one comes first for the last statement of a
unit. -/
def unlessLast (inBlock : Bool) (a b : G) : G :=
  if inBlock then alt a b else any [seq b atEnd, a, b]

/-- What begins with modifiers: a package, a module, a type, variables, or a member. -/
def modified (inBlock : Bool) (member : G) : G :=
  let declared : G :=
    any
      [classDeclaration, interfaceDeclaration, enumDeclaration, recordDeclaration,
       annotationTypeDeclaration, member, localVariables memberWords]
  let units : G := alt packageDeclaration moduleDeclaration
  let others : G :=
    seq (alt holeIsLong (notWord unitWords))
      (share (node .modifiers (seq hole (many (modifier true)))) declared)
  alt
    (share (many1 declarationAnnotation) (unlessLast inBlock others units))
    (all [notAhead (sym "@"), notSealedTest, share (call (.modifiers true)) declared])

def unmodifiedDeclaration : G :=
  share empty
    (any
      [packageDeclaration,
       seq (notAhead (seq (kw "module") (kw "instanceof"))) moduleDeclaration,
       classDeclaration, interfaceDeclaration, enumDeclaration, seq notTest recordDeclaration,
       annotationTypeDeclaration, seq notTest (localVariables firstWords)])

def enhancedFor (body : G) : G :=
  node .enhancedForStatement
    (all
      [kw "for", sym "(", notSealedTest,
       alt (call (.modifiers false)) (seq (unmodified typeWords) notTest),
       role .type plainType, declaratorId, sym ":", role .value expression, sym ")",
       role .body body])

def plainFor (body : G) : G :=
  let declared : G :=
    seq notSealedTest
      (alt (share (call (.modifiers false)) (localVariables []))
        (all [unmodified [], notTest, share empty (localVariables typeWords)]))
  node .forStatement
    (all
      [kw "for", sym "(",
       alt (role .init declared)
        (all [unmodified [], commas (role .init expression), semicolon]),
       opt (role .condition expression), semicolon,
       commas (role .update expression), sym ")", role .body body])

def catchClause : G :=
  node .catchClause
    (all
      [kw "catch", sym "(",
       node .catchFormalParameter
        (all
          [opt (call (.modifiers false)),
           node .catchType (seq plainType (many (seq (sym "|") plainType))), declaratorId]),
       sym ")", role .body (call .block)])

def finallyClause : G := node .finallyClause (seq (kw "finally") (call .block))

/-- The end of a `try`, where no statement can begin with one of its words. -/
def optFinally : G := alt finallyClause (notWord ["catch", "finally"])

/-- Words that begin no type and no name of a variable in a list of resources. -/
def resourceWords : List String := typeWords.filter (· != "switch")

def resource : G :=
  node .resource
    (any
      [all
        [alt (call (.modifiers false)) (unmodified resourceWords),
         role .type plainType, declaratorId, sym "=", role .value expression],
       seq (unmodified []) (share (call .primary) (seq (holeIs [.fieldAccess]) hole)),
       seq (unmodified (resourceWords ++ primitiveWords)) name])

def tryStatement : G :=
  alt
    (node .tryWithResourcesStatement
      (all
        [kw "try",
         role .resources
          (node .resourceSpecification
            (parens (all [resource, many (seq semicolon resource), opt semicolon]))),
         role .body (call .block), many catchClause, optFinally]))
    (node .tryStatement
      (all
        [kw "try", role .body (call .block),
         alt (seq (many1 catchClause) optFinally) finallyClause]))

/-- A statement that begins with a keyword. The statements in it are `body`. -/
def controlStatement (body : G) : G :=
  any
    [node .ifStatement
      (all
        [kw "if", condition, role .consequence body,
         alt (seq (kw "else") (role .alternative body)) (notWord ["else"])]),
     node .whileStatement (all [kw "while", condition, role .body body]),
     enhancedFor body, plainFor body,
     node .doStatement
      (all [kw "do", role .body body, kw "while", condition, semicolon]),
     tryStatement,
     node .synchronizedStatement
      (all [kw "synchronized", call .parenthesized, role .body (call .block)]),
     node .returnStatement (all [kw "return", opt expression, semicolon]),
     node .breakStatement (all [kw "break", opt name, semicolon]),
     node .continueStatement (all [kw "continue", opt name, semicolon]),
     throwStatement,
     node .assertStatement
      (all [kw "assert", expression, opt (seq (sym ":") expression), semicolon])]

/-- A switch. If operators follow, it is the beginning of an expression. -/
def switchStatement : G :=
  share switchExpression
    (alt
      (node .expressionStatement (seq (expressionFrom (updated hole) .free) semicolon))
      (seq (notWord ["instanceof"]) hole))

/-- A statement that yields a value. If that would begin with a cast of a signed operand, then the
statement is a call of something named `yield` instead. -/
def yieldStatement : G :=
  let value : G :=
    share expression
      (seq (notAhead (holeHas fun trees => trees.head?.any Tree.beginsWithSignedCast)) hole)
  node .yieldStatement (all [kw "yield", notWord ["instanceof"], value, semicolon])

def statementRule (inBlock : Bool) : G :=
  let body : G := call (.statement inBlock)
  any
    [call .block, semicolon, controlStatement body, switchStatement, importDeclaration,
     modified inBlock refused, unmodifiedDeclaration,
     all
      [unmodified ("switch" :: statementWords),
       any
        [node .labeledStatement
          (all [nameBut (expressionWords ++ reservedWords), sym ":", body]),
         unlessLast inBlock yieldStatement expressionStatement]]]

/-- An item of a compilation unit: a method outside of types, or a statement. -/
def itemRule : G :=
  any
    [modified false (method memberWords), seq notTest (share empty (method firstWords)),
     call (.statement false)]

end Xref.Syntax.Grammar
