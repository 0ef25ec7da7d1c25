import Xref.Syntax.Grammar.Types

/-!
# Expressions, patterns and switches

Where two readings of an expression are possible, one is preferred by a rule that stands with the
alternatives: a type with type arguments is preferred to two comparisons, and a label without a
guard is a pattern if it can be one.
-/
namespace Xref.Syntax.Grammar

open Rule

def arguments : G := role .arguments (call .arguments)

def argumentsRule : G := node .argumentList (parens (commas expression))

def parenthesizedRule : G := node .parenthesizedExpression (parens expression)

def interpolation : G :=
  node .stringInterpolation (all [sym "\\\x7b", expression, sym "\x7d"])

def stringRule : G :=
  let text (quote : String) (fragment : Kind) : G :=
    all
      [sym quote, many (any [literal fragment, literal .escapeSequence, interpolation]), sym quote]
  node .stringLiteral
    (alt (text "\"\"\"" .multilineStringFragment) (text "\"" .stringFragment))

def newObject : G :=
  all
    [kw "new",
     alt (all [annotations, role .typeArguments typeArguments, annotations]) annotations,
     role .type (call .simpleType), arguments, opt (call .classBody)]

def newArray : G :=
  all
    [kw "new", annotations, role .type (call .simpleType),
     alt
      (seq
        (role .dimensions
          (many1
            (node .dimensionsExpr (all [annotations, sym "[", expression, sym "]"]))))
        (opt (role .dimensions dimensions)))
      (seq (role .dimensions dimensions) (role .value (call .arrayInitializer)))]

def creationRule : G :=
  alt (node .objectCreationExpression newObject) (node .arrayCreationExpression newArray)

def methodReference : G :=
  node .methodReference (all [hole, sym "::", opt typeArguments, alt (kw "new") name])

/-- A call or an access to a member of what is in `hole`. The name after the dot is none of `words`,
unless `super` stands between. -/
def memberAccess (words : List String) : G :=
  let call : G :=
    node .methodInvocation
      (all
        [role .object hole, sym ".",
         any
          [all
            [superLeaf, sym ".", opt (role .typeArguments typeArguments),
             role .name (nameBut ["this"])],
           all [role .typeArguments typeArguments, role .name (nameBut ["super"])],
           role .name (nameBut words)],
         arguments])
  let access : G :=
    node .fieldAccess
      (all
        [role .object hole, sym ".",
         alt (all [superLeaf, sym ".", role .field (alt thisLeaf name)])
          (role .field (alt thisLeaf (nameBut words)))])
  alt call access

def selectorWords : List String := ["new", "this", "super"]

/-- Whether trees are a new array without values, after which a bracket begins a dimension. -/
def isSizedArray : List Tree → Bool
  | [t] =>
    t.kind == .arrayCreationExpression &&
      t.children.getLast?.all fun c => c.kind != .arrayInitializer
  | _ => false

def primarySuffix : G :=
  any
    [memberAccess selectorWords,
     node .arrayAccess
      (all
        [notAhead (holeHas isSizedArray), role .array hole, sym "[", role .index expression,
         sym "]"]),
     methodReference,
     node .objectCreationExpression (all [hole, sym ".", newObject]),
     node .templateExpression
      (all [role .templateProcessor hole, sym ".", role .templateArgument (call .string)])]

def assignmentOperators : List String :=
  ["=", "+=", "-=", "*=", "/=", "&=", "|=", "^=", "%=", "<<=", ">>=", ">>>="]

/-- The literal of a class. Where something is assigned or called, `class` is the name of
a member. -/
def classLiteral : G :=
  share (withDimensions (simpleTypeBut ["class"]))
    (node .classLiteral
      (all [hole, sym ".", kw "class", notAhead (symbols ("(" :: assignmentOperators))]))

/-- Names with dots in front of a reference to a method, which are read as a value. -/
def referencedValue : G :=
  all
    [name,
     many (all [sym ".", opt (seq superLeaf (sym ".")), alt thisLeaf (nameBut selectorWords)]),
     sym "::"]

/-- A class literal, or a reference to a method of a type. -/
def typeAccess : G :=
  seq (notWord typeWords)
    (any
      [classLiteral,
       seq (notAhead (seq (notWord primitiveWords) referencedValue)) (share type methodReference)])

def primaryHead : G :=
  any
    [any
      ([Kind.decimalIntegerLiteral, .hexIntegerLiteral, .octalIntegerLiteral,
        .binaryIntegerLiteral, .decimalFloatingPointLiteral, .hexFloatingPointLiteral,
        .characterLiteral].map literal),
     call .string,
     keyword "true" .trueLiteral, keyword "false" .falseLiteral, keyword "null" .nullLiteral,
     thisLeaf,
     share superLeaf (alt (memberAccess ["this", "super"]) methodReference),
     call .creation,
     seq (notAhead (seq (sym "(") (alt (keywords modifierWords) nonSealed))) (call .parenthesized),
     typeAccess,
     node .methodInvocation (seq (role .name (nameBut expressionWords)) arguments),
     nameBut expressionWords]

def primaryRule : G := chain primaryHead primarySuffix

/-- A lambda. After a body that is a block or an expression the rules given have to match. -/
def lambdaWith (site : Site) (afterBlock afterValue : G) : G :=
  let body : G :=
    alt (seq (role .body (call .block)) afterBlock)
      (seq (role .body (call (.expression site))) afterValue)
  let inferred : G :=
    node .inferredParameters
      (parens (all [unmodified [], nameBut expressionWords, many (seq (sym ",") name)]))
  any
    [node .lambdaExpression (all [role .parameters (nameBut expressionWords), sym "->", body]),
     node .lambdaExpression (all [role .parameters inferred, sym "->", body]),
     node .lambdaExpression
      (all [role .parameters (call (.formalParameters true)), sym "->", body])]

/-- A lambda in a label, after which the label goes on or ends. -/
def labelLambda (site : Site) (arrows : List String) : G :=
  let marks : List String := arrows ++ [",", ":"]
  let operators : List String := ["?", "++", "--"] ++ binaryOperators
  lambdaWith site
    (ahead (alt (symbols (marks ++ operators)) (keywords ["when", "instanceof"])))
    (ahead (alt (symbols marks) (kw "when")))

def lambda : Site → G
  | .free => lambdaWith .free empty empty
  | .label none => labelLambda (.label none) ["->"]
  | .label (some 0) => labelLambda (.label (some 0)) []
  | .label (some (n + 1)) => labelLambda (.label (some n)) ["->"]

def instanceTest (site : Site) : G :=
  let words : List String := if site = .free then ["instanceof"] else ["instanceof", "when"]
  node .instanceofExpression
    (all
      [kw "instanceof", opt (kw "final"),
       alt (role .pattern (call (.recordPattern false)))
        (all
          [notWord reservedWords, role .right type, opt (role .name (nameBut words))])])

def guardClause (site : Site) : G := node .guard (seq (kw "when") (call (.expression site)))

/-- What follows parentheses around a value, and not those of a cast. -/
def afterValue (site : Site) : G :=
  let guard : List G := if site = .free then [] else [guardClause site]
  seq (many (symbols ["++", "--"])) (any (instanceTest site :: guard))

/-- A name with dots in parentheses, in front of a sign. It is read as a value first; casts are
found when the whole chain of operators is known. -/
def signedName : G :=
  let part : G := seq (sym ".") name
  all
    [parens (all [nameBut primitiveWords, many part]), many (symbols ["++", "--"]),
     symbols ["+", "-"]]

def updated (operand : G) : G :=
  chain operand (node .updateExpression (seq hole (symbols ["++", "--"])))

/-- A cast. To an intersection only a primary expression or a lambda is cast. Increments after what
is cast belong to it only if it has an operator in front or is a switch. -/
def cast (site : Site) : G :=
  let operated : List Kind :=
    [.unaryExpression, .updateExpression, .castExpression, .switchExpression]
  let value : G := share (call (.prefixed site)) (alt (seq (holeIs operated) (updated hole)) hole)
  let annotated : G := node .annotatedType (seq typeAnnotations plainType)
  let first : G := role .type (alt annotated (seq (unmodified typeWords) plainType))
  alt
    (node .castExpression
      (all
        [notAhead signedName, sym "(", first, sym ")", notAhead (afterValue site),
         role .value value]))
    (node .castExpression
      (all
        [sym "(", first, many1 (seq (sym "&") (role .type type)), sym ")",
         notAhead (afterValue site), role .value (alt (lambda site) (call .primary))]))

/-- A primary expression. In front of an assignment operator it is the left side of an assignment,
which takes all that follows. -/
def assignment (site : Site) : G :=
  share (call .primary)
    (alt
      (node .assignmentExpression
        (all
          [holeIs [.identifier, .fieldAccess, .arrayAccess], role .left hole,
           role .operator (symbols assignmentOperators),
           role .right (call (.expression site))]))
      hole)

def switchExpression : G :=
  node .switchExpression
    (all [kw "switch", role .condition (call .parenthesized), role .body (call .switchBlock)])

def prefixedRule (site : Site) : G :=
  any
    [node .unaryExpression
      (seq (role .operator (symbols ["+", "-", "!", "~"]))
        (role .operand (call (.prefixed site)))),
     node .updateExpression (seq (symbols ["++", "--"]) (call (.prefixed site))),
     lambda site, cast site, switchExpression, assignment site]

def operandRule (site : Site) : G := updated (call (.prefixed site))

def expressionFrom (first : G) (site : Site) : G :=
  let step : G :=
    alt (seq (symbols binaryOperators) (call (.operand site)))
      (seq (instanceTest site) (many (symbols ["++", "--"])))
  share (operators (seq first (many step)))
    (alt
      (node .ternaryExpression
        (all
          [role .condition hole, sym "?", role .consequence expression, sym ":",
           role .alternative (call (.expression site))]))
      hole)

def expressionRule (site : Site) : G := expressionFrom (call (.operand site)) site

/-- The value of an element. An annotation that does not end it belongs to a type. -/
def elementValueRule : G :=
  let annotatedType : G := node .annotatedType (all [hole, annotations, plainType])
  let referred : G := share annotatedType methodReference
  any
    [node .elementValueArrayInitializer (braces (commasTrailing (call .elementValue))),
     share (call .annotated)
      (alt (seq (ahead (symbols [",", ";", ")", "\x7d"])) hole)
        (expressionFrom (updated (chain referred primarySuffix)) .free)),
     expression]

def recordPatternRule (inLabel : Bool) : G :=
  let words : List String := "_" :: if inLabel then typeWords else reservedWords
  node .recordPattern
    (seq
      (alt
        (seq (notWord (primitiveWords ++ reservedWords))
          (share (classType []) (seq (holeIs [.genericType]) hole)))
        (nameBut primitiveWords))
      (node .recordPatternBody
        (parens
          (commas
            (any
              [seq (notWord ("_" :: if inLabel then valueWords else []))
                (call (.recordPattern inLabel)),
               node .recordPatternComponent (keyword "_" .underscorePattern),
               node .recordPatternComponent (all [notWord words, plainType, name])])))))

def casePattern : G :=
  let test : G := all [notWord primitiveWords, name, keywords ["instanceof", "when"]]
  node .pattern
    (alt
      (node .typePattern (all [notWord typeWords, notAhead test, plainType, name]))
      (seq (notWord valueWords) (call (.recordPattern true))))

/-- A label up to the arrow or colon after it. What can be both a pattern and an expression is a
pattern, unless a guard follows and the pattern has no type arguments. -/
def switchLabel (site : Site) : G :=
  let done : G := ahead (symbols ["->", ":"])
  let unnamed : G := all [many1 (seq (nameBut valueWords) (sym "(")), kw "_"]
  node .switchLabel
    (any
      [all [kw "case", casePattern, done],
       all
        [kw "case",
         share casePattern
          (seq (holeHas fun trees => trees.any fun t => t.contains .genericType) hole),
         guardClause site, done],
       all
        [kw "case", notAhead unnamed, commas1 (call (.expression site)), opt (guardClause site),
         done],
       all [kw "case", casePattern, guardClause site, done],
       kw "default"])

def expressionStatement : G := node .expressionStatement (seq expression semicolon)

def throwStatement : G := node .throwStatement (all [kw "throw", expression, semicolon])

def ruleWith (label result : G) : G := node .switchRule (all [label, sym "->", result])

def ruleStatement : G := alt throwStatement (seq (notWord ["throw"]) expressionStatement)

/-- The end of a rule that does not end with a semicolon. -/
def ruleEnd : G := ahead (alt (keywords ["case", "default"]) (sym "\x7d"))

/-- A label of a rule that ends with lambdas, whose number has to pass the test. -/
def lambdaLabel (arrows : Option Nat) (test : Nat → Bool) : G :=
  share (switchLabel (.label arrows))
    (seq (holeHas fun trees => trees.getLast?.any fun t => test t.lambdasAtEnd) hole)

/-- A rule whose label ends with at least so many lambdas inside each other, and with as many as
possible. -/
def lambdaRuleRule (arrows : Nat) : G :=
  let label : G := lambdaLabel (some arrows) fun n => n == arrows
  seq (ahead (lambdaLabel none fun n => arrows ≤ n))
    (alt (call (.lambdaRule (arrows + 1)))
      (seq (ruleWith label (alt (call .block) ruleStatement)) ruleEnd))

/-- A rule of a switch. If its value ends with a lambda, then the arrows up to the last one belong
to the label as far as they can. -/
def switchRule : G :=
  let label : G := switchLabel (.label (some 0))
  let lambdaAtEnd : G := holeHas fun trees => trees.getLast?.any fun t => t.lambdasAtEnd != 0
  let value : G := share expression (seq (notAhead lambdaAtEnd) hole)
  any
    [ruleWith label
      (any
        [seq (call .block) ruleEnd,
         node .throwStatement (all [kw "throw", value, semicolon]),
         seq (notWord ["throw"]) (node .expressionStatement (seq value semicolon))]),
     call (.lambdaRule 1), ruleWith label ruleStatement]

def switchBlockRule : G :=
  node .switchBlock
    (alt (braces (many switchRule))
      (braces
        (many
          (node .switchBlockStatementGroup
            (all
              [switchLabel (.label none), sym ":",
               many (seq (notWord ["case", "default"]) (call (.statement true)))])))))

end Xref.Syntax.Grammar
