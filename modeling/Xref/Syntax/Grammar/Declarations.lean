import Xref.Syntax.Grammar.Expressions

/-!
# Declarations

Types and their members, modules, packages and imports. The modifiers of a declaration are read
before it is known what is declared; they are in `hole`.
-/
namespace Xref.Syntax.Grammar

open Rule

def throwsClause : G := node .throwsClause (seq (kw "throws") (commas1 type))

def superInterfaces : G :=
  opt (role .interfaces (node .superInterfaces (seq (kw "implements") typeList)))

def permits : G := opt (role .permits (node .permits (seq (kw "permits") typeList)))

def classDeclaration : G :=
  node .classDeclaration
    (all
      [hole, kw "class", role .name name, optTypeParameters,
       opt (role .superclass (node .superclass (seq (kw "extends") type))),
       superInterfaces, permits, role .body (call .classBody)])

def interfaceDeclaration : G :=
  node .interfaceDeclaration
    (all
      [hole, kw "interface", role .name name, optTypeParameters,
       opt (node .extendsInterfaces (seq (kw "extends") typeList)), permits,
       role .body (call .interfaceBody)])

def enumDeclaration : G :=
  node .enumDeclaration
    (all [hole, kw "enum", role .name name, superInterfaces, role .body (call .enumBody)])

def recordDeclaration : G :=
  node .recordDeclaration
    (all
      [hole, kw "record", role .name name, optTypeParameters, formalParameters, superInterfaces,
       role .body (call .classBody)])

def annotationTypeDeclaration : G :=
  node .annotationTypeDeclaration
    (all [hole, annotationKeyword, role .name name, role .body (call .annotationBody)])

/-- A method after its modifiers. None of `words` can begin the type in front. -/
def method (words : List String) : G :=
  node .methodDeclaration
    (all
      [hole,
       alt
        (all
          [role .typeParameters (call .typeParameters), annotations, role .type plainType,
           role .name name])
        (all [notWord words, role .type plainType, role .name (nameBut ["_"])]),
       formalParameters, opt (role .dimensions dimensions), opt throwsClause,
       alt (role .body (call .block)) semicolon])

/-- Variables of one type, after their modifiers. None of `words` can begin the type. -/
def variableDeclaration (kind : Kind) (words : List String) : G :=
  node kind (all [hole, notWord words, role .type plainType, declarators, semicolon])

def explicitConstructor : G :=
  alt
    (node .explicitConstructorInvocation
      (all
        [opt (role .typeArguments typeArguments), role .constructor (alt thisLeaf superLeaf),
         arguments, semicolon]))
    (node .explicitConstructorInvocation
      (all
        [role .object (call .primary), sym ".", opt (role .typeArguments typeArguments),
         role .constructor superLeaf, arguments, semicolon]))

def constructorDeclaration : G :=
  node .constructorDeclaration
    (all
      [hole,
       alt (seq (role .typeParameters (call .typeParameters)) (role .name (nameBut primitiveWords)))
        (role .name (nameBut (memberWords ++ primitiveWords))),
       formalParameters, opt throwsClause,
       role .body
        (node .constructorBody
          (braces (seq (opt explicitConstructor) (many (call (.statement true))))))])

def compactConstructor : G :=
  node .compactConstructorDeclaration
    (all [hole, role .name (nameBut (memberWords ++ primitiveWords)), role .body (call .block)])

def classMember : G :=
  any
    [semicolon, call .block,
     node .staticInitializer (seq (kw "static") (call .block)),
     share (opt (call (.modifiers true)))
      (any
        [classDeclaration, interfaceDeclaration, enumDeclaration, recordDeclaration,
         annotationTypeDeclaration, method memberWords,
         variableDeclaration .fieldDeclaration memberWords,
         constructorDeclaration, compactConstructor])]

def classBodyRule : G := node .classBody (braces (many classMember))

def interfaceBodyRule : G :=
  node .interfaceBody
    (braces
      (many
        (alt semicolon
          (share (opt (call (.modifiers true)))
            (any
              [classDeclaration, interfaceDeclaration, enumDeclaration, recordDeclaration,
               annotationTypeDeclaration, method memberWords,
               variableDeclaration .constantDeclaration memberWords])))))

def annotationElement : G :=
  node .annotationTypeElementDeclaration
    (all
      [hole, notWord declarationWords, role .type plainType, role .name (nameBut ["_"]), sym "(",
       sym ")", opt (role .dimensions dimensions),
       opt (seq (kw "default") (role .value (call .elementValue))), semicolon])

def annotationBodyRule : G :=
  node .annotationTypeBody
    (braces
      (many
        (alt semicolon
          (share (opt (call (.modifiers true)))
            (any
              [classDeclaration, interfaceDeclaration, enumDeclaration,
               annotationTypeDeclaration, annotationElement,
               variableDeclaration .constantDeclaration declarationWords])))))

def enumConstant : G :=
  node .enumConstant
    (all
      [opt (call (.modifiers false)), role .name name, opt arguments,
       opt (role .body (call .classBody))])

def enumBodyRule : G :=
  node .enumBody
    (braces
      (seq (commasTrailing enumConstant)
        (opt (node .enumBodyDeclarations (seq semicolon (many classMember))))))

def moduleNames (r : Role) : G := role r qualifiedName

def packageDirective (kind : Kind) (word : String) : G :=
  node kind
    (all
      [kw word, moduleNames .package, opt (seq (kw "to") (commas1 (moduleNames .modules))),
       semicolon])

def moduleDirective : G :=
  any
    [node .requiresModuleDirective
      (all
        [kw "requires",
         many
          (role .modifiers
            (node .requiresModifier (keywords ["transitive", "static"]))),
         moduleNames .module, semicolon]),
     packageDirective .exportsModuleDirective "exports",
     packageDirective .opensModuleDirective "opens",
     node .usesModuleDirective (all [kw "uses", moduleNames .type, semicolon]),
     node .providesModuleDirective
      (all
        [kw "provides", moduleNames .provided, kw "with", qualifiedName,
         many (seq (sym ",") (moduleNames .provider)), semicolon])]

def moduleDeclaration : G :=
  node .moduleDeclaration
    (all
      [hole, opt (kw "open"), kw "module", role .name qualifiedName,
       role .body (node .moduleBody (braces (many moduleDirective)))])

def packageDeclaration : G :=
  node .packageDeclaration (all [hole, kw "package", qualifiedName, semicolon])

def importDeclaration : G :=
  node .importDeclaration
    (all
      [kw "import", opt (kw "static"), qualifiedName,
       opt (seq (sym ".") (symbol "*" .asterisk)), semicolon])

end Xref.Syntax.Grammar
