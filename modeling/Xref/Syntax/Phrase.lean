import Xref.Syntax.Rule

/-!
# Phrases

The parts of the grammar that refer to each other, and small rules that all of them use.
-/
namespace Xref.Syntax

/-- Where an expression stands, which decides what an arrow after it means. -/
inductive Site where
  /-- Anywhere but in a label. -/
  | free
  /-- In a label, where an arrow makes a lambda if the label goes on after that without another
  arrow. At the end of the label it does so for so many arrows, or for any number of them. -/
  | label (arrows : Option Nat)
  deriving Repr, DecidableEq

inductive Phrase where
  | item | block
  /-- A statement, in a block or outside of all types and methods. -/
  | statement (inBlock : Bool)
  | expression (site : Site) | operand (site : Site) | prefixed (site : Site)
  | primary | parenthesized | arguments | creation | string | arrayInitializer
  | type | plainType | simpleType | typeArguments | typeParameters
  | annotated | elementValue
  /-- Modifiers, in front of a declaration of a type or of something else. -/
  | modifiers (ofType : Bool)
  | classBody | interfaceBody | annotationBody | enumBody
  | formalParameters (ofLambda : Bool)
  | switchBlock
  /-- A rule of a switch whose label ends with at least so many lambdas inside each other. -/
  | lambdaRule (arrows : Nat)
  | recordPattern (inLabel : Bool)
  deriving Repr, DecidableEq

namespace Grammar

open Rule

abbrev G := Rule Phrase

def keywords (words : List String) : G := any (words.map kw)

def symbols (marks : List String) : G := any (marks.map sym)

def name : G := word .identifier

def typeName : G := word .typeIdentifier

def nameBut (words : List String) : G := seq (notWord words) name

def semicolon : G := sym ";"

def braces (a : G) : G := all [sym "\x7b", a, sym "\x7d"]

def parens (a : G) : G := all [sym "(", a, sym ")"]

/-- Any number with commas between, and perhaps one after the last. -/
def commasTrailing (a : G) : G := seq (commas a) (opt (sym ","))

def expression : G := call (.expression .free)

def thisLeaf : G := keyword "this" .thisKeyword

def superLeaf : G := keyword "super" .superKeyword

def qualifiedName : G :=
  chain name (node .scopedIdentifier (all [role .scope hole, sym ".", role .name name]))

def nonSealed : G := joined ["non", "-", "sealed"]

def annotationKeyword : G := joined ["@", "interface"]

/-- Nothing, in a place where modifiers are possible and neither they nor one of `words` follow. -/
def unmodified (words : List String) : G :=
  seq (notWord (modifierWords ++ words)) (notAhead nonSealed)

/-- Nothing, unless a name and the operator `instanceof` follow. -/
def notTest : G := notAhead (all [notWord primitiveWords, name, kw "instanceof"])

end Grammar

end Xref.Syntax
