import Xref.Java.Context

/-!
# Descriptions of types

What is known of a type, wherever it was found: its kind, its supertypes and its members. A type in
a signature is either qualified already or still the text somebody wrote in some context.
-/
namespace Xref.Java

inductive TypeKind where
  | classType | interfaceType | enumType | recordType | annotationType
  deriving Repr, DecidableEq, Inhabited

namespace TypeKind

def isInterface : TypeKind → Bool
  | interfaceType | annotationType => true
  | _ => false

def label : TypeKind → String
  | .classType => "Class"
  | .interfaceType => "Interface"
  | .enumType => "Enum"
  | .recordType => "Record"
  | .annotationType => "Annotation"

def all : List TypeKind := [.classType, .interfaceType, .enumType, .recordType, .annotationType]

def ofLabel? (s : String) : Option TypeKind := all.find? fun k => k.label == s

end TypeKind

/-- Where a type was declared: below a source root, in a library, or in the unit at hand. -/
inductive Origin where
  | source (path : String)
  | library (path : String)
  | target (path : String)
  deriving Repr, DecidableEq, Inhabited

inductive TypeRef where
  /-- Erased and qualified. -/
  | qualified (name : String)
  /-- Erased text, to be resolved where it stands. -/
  | written (text : String) (context : Context)
  deriving Repr, DecidableEq, Inhabited

structure FieldInfo where
  name : String
  type : TypeRef
  isStatic : Bool
  deriving Repr, DecidableEq, Inhabited

/-- A method or constructor. Constructors have no return type. -/
structure MethodInfo where
  name : String
  params : List TypeRef
  returnType : Option TypeRef
  isStatic : Bool
  isVarargs : Bool
  isConstructor : Bool
  deriving Repr, DecidableEq, Inhabited

structure TypeInfo where
  name : String
  package : String
  kind : TypeKind
  superclass : Option TypeRef
  interfaces : List TypeRef
  fields : List FieldInfo
  methods : List MethodInfo
  origin : Origin
  deriving Repr, DecidableEq, Inhabited

namespace TypeInfo

def methodsNamed (t : TypeInfo) (name : String) : List MethodInfo :=
  t.methods.filter fun m => !m.isConstructor && m.name == name

def constructors (t : TypeInfo) : List MethodInfo :=
  t.methods.filter MethodInfo.isConstructor

def field? (t : TypeInfo) (name : String) : Option FieldInfo :=
  t.fields.find? fun f => f.name == name

end TypeInfo

inductive Status where
  /-- The name is bound to a known type or member. -/
  | resolved
  /-- A qualified name was put together without a binding. -/
  | recovered
  /-- Only the written text is known. -/
  | unresolved
  deriving Repr, DecidableEq, Inhabited

namespace Status

def label : Status → String
  | resolved => "RESOLVED"
  | recovered => "RECOVERED"
  | unresolved => "UNRESOLVED"

def all : List Status := [resolved, recovered, unresolved]

def ofLabel? (s : String) : Option Status := all.find? fun x => x.label == s

end Status

structure TypeName where
  name : String
  status : Status
  deriving Repr, DecidableEq, Inhabited

namespace TypeName

def resolved (name : String) : TypeName := ⟨name, .resolved⟩

def recovered (name : String) : TypeName := ⟨name, .recovered⟩

def unresolved (name : String) : TypeName := ⟨name, .unresolved⟩

def isResolved (t : TypeName) : Bool := t.status == .resolved

end TypeName

end Xref.Java
