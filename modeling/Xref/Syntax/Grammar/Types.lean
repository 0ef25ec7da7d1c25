import Xref.Syntax.Phrase

/-!
# Annotations, types and parameters
-/
namespace Xref.Syntax.Grammar

open Rule

def argumentsOfAnnotation : G :=
  let pair (key : G) : G :=
    node .elementValuePair (all [role .key key, sym "=", role .value (call .elementValue)])
  opt (seq (pair (nameBut expressionWords)) (many (seq (sym ",") (pair name))))

def annotatedRule : G :=
  share (all [sym "@", role .name qualifiedName])
    (alt
      (node .annotationUse
        (seq hole
          (role .arguments
            (node .annotationArgumentList
              (alt (parens argumentsOfAnnotation) (parens (call .elementValue)))))))
      (node .annotationMarker hole))

def annotations : G := many (call .annotated)

/-- An annotation in a place where a declaration of an annotation type is possible too. -/
def declarationAnnotation : G := seq (notAhead annotationKeyword) (call .annotated)

def modifier (ofType : Bool) : G :=
  any
    [if ofType then declarationAnnotation else call .annotated,
     keywords (modifierWords ++ ["sealed"]), nonSealed]

def holeIsLong : G := holeHas fun trees => 1 < trees.length

/-- Annotations of a type, in a place where modifiers are possible too. After a single one a word
that is a modifier is one. -/
def typeAnnotations : G :=
  share (many1 (call .annotated)) (seq (alt holeIsLong (unmodified ["sealed"])) hole)

def modifiersRule (ofType : Bool) : G := node .modifiers (many1 (modifier ofType))

def type : G := call .type

def plainType : G := call .plainType

def typeArguments : G := call .typeArguments

def dimensions : G :=
  node .dimensions (many1 (all [annotations, sym "[", sym "]"]))

def wildcard : G :=
  node .wildcard
    (all [annotations, sym "?", opt (alt (seq (kw "extends") type) (seq superLeaf type))])

def typeArgumentsRule : G :=
  node .typeArguments (all [sym "<", commas (alt wildcard type), angle])

/-- A class type: names with dots between them, and type arguments after some of them. A name after
a dot is none of `words`. -/
def classType (words : List String) : G :=
  chain typeName
    (alt
      (node .genericType
        (all [holeIs [.typeIdentifier, .scopedTypeIdentifier], hole, typeArguments]))
      (node .scopedTypeIdentifier (all [hole, sym ".", annotations, notWord words, typeName])))

def simpleTypeBut (words : List String) : G :=
  any
    [keyword "void" .voidType,
     node .integralType (keywords ["byte", "short", "int", "long", "char"]),
     node .floatingPointType (keywords ["float", "double"]),
     keyword "boolean" .booleanType,
     classType words]

def simpleTypeRule : G := simpleTypeBut []

def withDimensions (a : G) : G :=
  share a (alt (node .arrayType (seq (role .element hole) (role .dimensions dimensions))) hole)

def plainTypeRule : G := withDimensions (call .simpleType)

def annotatedType : G := node .annotatedType (seq (many1 (call .annotated)) plainType)

def typeRule : G := alt annotatedType plainType

def typeList : G := node .typeList (commas1 type)

def typeParametersRule : G :=
  node .typeParameters
    (all
      [sym "<",
       commas1
        (node .typeParameter
          (all
            [annotations, typeName,
             opt (node .typeBound (all [kw "extends", type, many (seq (sym "&") type)]))])),
       angle])

def optTypeParameters : G := opt (role .typeParameters (call .typeParameters))

def declaratorId : G :=
  seq (role .name (alt (keyword "_" .underscorePattern) name)) (opt (role .dimensions dimensions))

def arrayInitializerRule : G :=
  node .arrayInitializer (braces (commasTrailing (alt (call .arrayInitializer) expression)))

def variableDeclarator : G :=
  node .variableDeclarator
    (seq declaratorId
      (opt (seq (sym "=") (role .value (alt (call .arrayInitializer) expression)))))

def declarators : G := commas1 (role .declarator variableDeclarator)

/-- The parameter `this`, after its annotations. None of `words` can be the first name between. -/
def receiverParameter (before : G) (words : List String) : G :=
  node .receiverParameter
    (all
      [before, plainType,
       opt
        (all
          [nameBut ("this" :: words), sym ".", many (seq (nameBut ["this"]) (sym "."))]),
       thisLeaf])

/-- A parameter after its modifiers. None of `words` can be its name. -/
def parameterBut (words : List String) : G :=
  alt
    (node .spreadParameter (all [hole, plainType, sym "...", annotations, variableDeclarator]))
    (node .formalParameter (all [hole, role .type plainType, notWord words, declaratorId]))

def laterParameter : G :=
  alt (share (call (.modifiers false)) (parameterBut []))
    (seq (unmodified ["sealed"]) (share empty (parameterBut [])))

/-- A list of parameters. The first parameter without modifiers is not named `this`, since that is
the receiver; after annotations `this` is read as a name, if that reading is possible. In front of
a lambda the list can be mistaken for an expression, so its first words are those of one. -/
def formalParametersRule (ofLambda : Bool) : G :=
  let before : G :=
    if ofLambda then seq (unmodified typeWords) notTest else unmodified ["sealed"]
  let receiver := seq before (receiverParameter empty ("_" :: reservedWords))
  let annotated := receiverParameter typeAnnotations []
  let first : G :=
    alt (share (call (.modifiers false)) (parameterBut []))
      (seq before (share empty (parameterBut ["this"])))
  let later : G := many (seq (sym ",") laterParameter)
  node .formalParameters
    (any
      [parens receiver,
       parens (all [receiver, sym ",", commas laterParameter]),
       parens (opt (seq first later)),
       parens annotated,
       parens (all [annotated, sym ",", commas laterParameter])])

def formalParameters : G := role .parameters (call (.formalParameters false))

end Xref.Syntax.Grammar
