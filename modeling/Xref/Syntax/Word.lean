/-!
# Words of Java

The words that are keywords somewhere. A word is a keyword only where the grammar has a use for it
as such; elsewhere it is an identifier. So each place of the grammar has its own list of words that
cannot be names there.
-/
namespace Xref.Syntax

def primitiveWords : List String :=
  ["byte", "short", "int", "long", "char", "float", "double", "boolean", "void"]

def valueWords : List String := ["true", "false", "null", "this", "super", "new", "switch"]

/-- Words that name no value where an expression begins. -/
def expressionWords : List String := valueWords ++ primitiveWords

/-- Names that are keywords elsewhere. As the first word of an expression they name a value and no
type. -/
def reservedWords : List String := ["open", "module", "record", "with", "sealed", "yield"]

/-- Words that name no type where an expression begins. -/
def typeWords : List String := valueWords ++ reservedWords

def modifierWords : List String :=
  ["public", "protected", "private", "abstract", "static", "final", "strictfp", "default",
   "synchronized", "native", "transient", "volatile"]

def declarationWords : List String := ["class", "interface", "enum"]

def statementWords : List String :=
  modifierWords ++ declarationWords ++
    ["assert", "break", "continue", "do", "for", "if", "import", "package", "return", "throw",
     "try", "while"]

/-- Words that begin a member and no type, after the modifiers. -/
def memberWords : List String := declarationWords ++ ["record"]

end Xref.Syntax
