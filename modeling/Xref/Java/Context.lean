import Xref.Java.Name

/-!
# Lexical contexts

What a written type name depends on: the package and imports of its compilation unit, the types
around it and the type variables in scope.
-/
namespace Xref.Java

open Text

/-- An import declaration. The name is without `static` and without a final `.*`. -/
structure Import where
  name : String
  isStatic : Bool
  onDemand : Bool
  deriving Repr, DecidableEq, Inhabited

namespace Import

def simpleName (i : Import) : String := lastPiece '.' i.name

def qualifier (i : Import) : Option String := (cutLast '.' i.name).map Prod.fst

/-- The name as it is written, with `.*` for an on-demand import. -/
def displayName (i : Import) : String := if i.onDemand then i.name ++ ".*" else i.name

def isSingleType (i : Import) : Bool := !i.isStatic && !i.onDemand

end Import

/-- A type variable with the erased text of its first bound. -/
structure TypeVariable where
  name : String
  bound : Option String
  deriving Repr, DecidableEq, Inhabited

structure Context where
  package : String := ""
  imports : List Import := []
  enclosing : List String := []
  typeVariables : List TypeVariable := []
  deriving Repr, DecidableEq, Inhabited

namespace Context

def typeVariable? (ctx : Context) (name : String) : Option TypeVariable :=
  ctx.typeVariables.reverse.find? fun v => v.name == name

def singleTypeImports (ctx : Context) : List Import :=
  ctx.imports.filter Import.isSingleType

def inside (ctx : Context) (name : String) : Context :=
  { ctx with enclosing := name :: ctx.enclosing }

def declaring (ctx : Context) (vars : List TypeVariable) : Context :=
  { ctx with typeVariables := ctx.typeVariables ++ vars }

end Context

end Xref.Java
