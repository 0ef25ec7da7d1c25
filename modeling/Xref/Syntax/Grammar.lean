import Xref.Syntax.Grammar.Statements

/-!
# The grammar of Java

The concrete grammar, from compilation units down to types.
-/
namespace Xref.Syntax

open Grammar in
def grammar : Phrase → Rule Phrase
  | .item => itemRule
  | .block => blockRule
  | .statement inBlock => statementRule inBlock
  | .expression site => expressionRule site
  | .operand site => operandRule site
  | .prefixed site => prefixedRule site
  | .primary => primaryRule
  | .parenthesized => parenthesizedRule
  | .arguments => argumentsRule
  | .creation => creationRule
  | .string => stringRule
  | .arrayInitializer => arrayInitializerRule
  | .type => typeRule
  | .plainType => plainTypeRule
  | .simpleType => simpleTypeRule
  | .typeArguments => typeArgumentsRule
  | .typeParameters => typeParametersRule
  | .annotated => annotatedRule
  | .elementValue => elementValueRule
  | .modifiers ofType => modifiersRule ofType
  | .classBody => classBodyRule
  | .interfaceBody => interfaceBodyRule
  | .annotationBody => annotationBodyRule
  | .enumBody => enumBodyRule
  | .formalParameters ofLambda => formalParametersRule ofLambda
  | .switchBlock => switchBlockRule
  | .lambdaRule arrows => lambdaRuleRule arrows
  | .recordPattern inLabel => recordPatternRule inLabel

end Xref.Syntax
