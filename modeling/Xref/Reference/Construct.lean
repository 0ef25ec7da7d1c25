import Xref.Reference.Record
import Xref.Syntax.Kind

/-!
# Constructs

Which syntax makes references, and which location each kind of reference has.
-/
namespace Xref.Reference

open Java Syntax

/-- The forms of syntax that are treated in their own way. All else is only walked through. -/
inductive Form where
  | packageDeclaration | importDeclaration | classDeclaration | interfaceDeclaration
  | enumDeclaration | recordDeclaration | annotationTypeDeclaration | enumConstant
  | methodDeclaration | elementDeclaration | constructorDeclaration
  | compactConstructorDeclaration | fieldDeclaration | constantDeclaration
  | localVariableDeclaration | enhancedFor | catchClause | tryWithResources | resource
  | methodInvocation | objectCreation | explicitConstructorInvocation | annotationUse
  | annotationMarker | lambda | instanceTest | scope | other
  deriving Repr, DecidableEq, Inhabited

namespace Form

def table : List (Kind × Form) :=
  [(.packageDeclaration, packageDeclaration), (.importDeclaration, importDeclaration),
   (.classDeclaration, classDeclaration), (.interfaceDeclaration, interfaceDeclaration),
   (.enumDeclaration, enumDeclaration), (.recordDeclaration, recordDeclaration),
   (.annotationTypeDeclaration, annotationTypeDeclaration), (.enumConstant, enumConstant),
   (.methodDeclaration, methodDeclaration),
   (.annotationTypeElementDeclaration, elementDeclaration),
   (.constructorDeclaration, constructorDeclaration),
   (.compactConstructorDeclaration, compactConstructorDeclaration),
   (.fieldDeclaration, fieldDeclaration), (.constantDeclaration, constantDeclaration),
   (.localVariableDeclaration, localVariableDeclaration), (.enhancedForStatement, enhancedFor),
   (.catchClause, catchClause), (.tryWithResourcesStatement, tryWithResources),
   (.resource, resource), (.methodInvocation, methodInvocation),
   (.objectCreationExpression, objectCreation),
   (.explicitConstructorInvocation, explicitConstructorInvocation),
   (.annotationUse, annotationUse), (.annotationMarker, annotationMarker),
   (.lambdaExpression, lambda), (.instanceofExpression, instanceTest), (.block, scope),
   (.constructorBody, scope), (.forStatement, scope), (.switchBlockStatementGroup, scope),
   (.switchRule, scope)]

def ofKind (kind : Kind) : Form := (table.lookup kind).getD other

/-- The form of the kind of node that the grammar calls `name`. -/
def ofKindName (name : String) : Form :=
  ((table.find? fun e => e.1.label == name).map Prod.snd).getD other

def label : Form → String
  | packageDeclaration => "PackageDeclaration"
  | importDeclaration => "ImportDeclaration"
  | classDeclaration => "ClassDeclaration"
  | interfaceDeclaration => "InterfaceDeclaration"
  | enumDeclaration => "EnumDeclaration"
  | recordDeclaration => "RecordDeclaration"
  | annotationTypeDeclaration => "AnnotationTypeDeclaration"
  | enumConstant => "EnumConstant"
  | methodDeclaration => "MethodDeclaration"
  | elementDeclaration => "AnnotationElementDeclaration"
  | constructorDeclaration => "ConstructorDeclaration"
  | compactConstructorDeclaration => "CompactConstructorDeclaration"
  | fieldDeclaration => "FieldDeclaration"
  | constantDeclaration => "ConstantDeclaration"
  | localVariableDeclaration => "LocalVariableDeclaration"
  | enhancedFor => "EnhancedFor"
  | catchClause => "CatchClause"
  | tryWithResources => "TryWithResources"
  | resource => "Resource"
  | methodInvocation => "MethodInvocation"
  | objectCreation => "ObjectCreation"
  | explicitConstructorInvocation => "ExplicitConstructorInvocation"
  | annotationUse => "Annotation"
  | annotationMarker => "MarkerAnnotation"
  | lambda => "Lambda"
  | instanceTest => "Instanceof"
  | scope => "Scope"
  | other => "Other"

def declared? : Form → Option TypeKind
  | classDeclaration => some .classType
  | interfaceDeclaration => some .interfaceType
  | enumDeclaration => some .enumType
  | recordDeclaration => some .recordType
  | annotationTypeDeclaration => some .annotationType
  | _ => none

end Form

inductive Construct where
  | typeDeclaration | methodDeclaration | constructorDeclaration | returnType | methodParameter
  | throwsClause | methodCall | constructorCall | explicitConstructorCall | variableDeclaration
  | variableInitializer | importDeclaration | superclass | superinterface | annotationUse
  deriving Repr, DecidableEq, Inhabited

namespace Construct

def location : Construct → Location
  | typeDeclaration => .type
  | methodDeclaration | constructorDeclaration => .method
  | returnType => .returnType
  | methodParameter => .methodParameter
  | throwsClause => .throwsDeclaration
  | methodCall => .methodCall
  | constructorCall | explicitConstructorCall => .constructorCall
  | variableDeclaration => .variableDeclaration
  | variableInitializer => .variableInitializer
  | importDeclaration => .importDeclaration
  | superclass => .inheritance
  | superinterface => .implementsType
  | annotationUse => .annotationUse

def label : Construct → String
  | typeDeclaration => "TypeDeclaration"
  | methodDeclaration => "MethodDeclaration"
  | constructorDeclaration => "ConstructorDeclaration"
  | returnType => "ReturnType"
  | methodParameter => "MethodParameter"
  | throwsClause => "ThrowsClause"
  | methodCall => "MethodCall"
  | constructorCall => "ConstructorCall"
  | explicitConstructorCall => "ExplicitConstructorCall"
  | variableDeclaration => "VariableDeclaration"
  | variableInitializer => "VariableInitializer"
  | importDeclaration => "Import"
  | superclass => "Superclass"
  | superinterface => "Superinterface"
  | annotationUse => "Annotation"

/-- The construct of a supertype. Only what a class extends is inherited from; the interfaces that
an interface extends count as implemented. -/
def ofSupertype (declaring : TypeKind) (isExtends : Bool) : Construct :=
  if declaring == .classType && isExtends then superclass else superinterface

end Construct

end Xref.Reference
