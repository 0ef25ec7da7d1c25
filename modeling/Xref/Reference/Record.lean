import Xref.Java.TypeInfo
import Xref.Text.LineMap

/-!
# References

A reference is a name at a place of the source, together with what it was found to mean there and
why it stands there. References to annotations also have the values of their elements.
-/
namespace Xref.Reference

open Java Text

/-- Why a name stands where it stands. -/
inductive Location where
  | type | method | returnType | methodParameter | throwsDeclaration | methodCall
  | constructorCall | variableDeclaration | variableInitializer | importDeclaration
  | inheritance | implementsType | annotationUse
  deriving Repr, DecidableEq, Inhabited

namespace Location

def label : Location → String
  | type => "TYPE"
  | method => "METHOD"
  | returnType => "RETURN_TYPE"
  | methodParameter => "METHOD_PARAMETER"
  | throwsDeclaration => "THROWS_METHOD_DECLARATION"
  | methodCall => "METHOD_CALL"
  | constructorCall => "CONSTRUCTOR_CALL"
  | variableDeclaration => "VARIABLE_DECLARATION"
  | variableInitializer => "VARIABLE_INITIALIZER"
  | importDeclaration => "IMPORT"
  | inheritance => "INHERITANCE"
  | implementsType => "IMPLEMENTS_TYPE"
  | annotationUse => "ANNOTATION"

def all : List Location :=
  [type, method, returnType, methodParameter, throwsDeclaration, methodCall, constructorCall,
   variableDeclaration, variableInitializer, importDeclaration, inheritance, implementsType,
   annotationUse]

def ofLabel? (s : String) : Option Location := all.find? fun l => l.label == s

def isCall : Location → Bool
  | methodCall | constructorCall => true
  | _ => false

end Location

inductive ElementValue where
  /-- A constant, a class literal or an enum constant, with its type if that is known. -/
  | literal (type : Option String) (value : String)
  | list (values : List ElementValue)
  /-- An annotation with its own values, sorted by the names of the elements. -/
  | nested (name : String) (values : List (String × ElementValue))
  deriving Repr, Inhabited

abbrev ElementValues := List (String × ElementValue)

namespace ElementValues

/-- Sets an element. A value it had before is replaced. -/
def insert (name : String) (value : ElementValue) : ElementValues → ElementValues
  | [] => [(name, value)]
  | (n, v) :: rest =>
    if name == n then (name, value) :: rest
    else if name < n then (name, value) :: (n, v) :: rest
    else (n, v) :: insert name value rest

def literal? (values : ElementValues) (name : String) : Option String :=
  match values.lookup name with
  | some (.literal _ value) => some value
  | _ => none

end ElementValues

namespace ElementValue

mutual

def same : ElementValue → ElementValue → Bool
  | literal t v, literal t' v' => t == t' && v == v'
  | list vs, list vs' => sameList vs vs'
  | nested n vs, nested n' vs' => n == n' && sameFields vs vs'
  | _, _ => false

def sameList : List ElementValue → List ElementValue → Bool
  | [], [] => true
  | v :: vs, w :: ws => same v w && sameList vs ws
  | _, _ => false

def sameFields : List (String × ElementValue) → List (String × ElementValue) → Bool
  | [], [] => true
  | (n, v) :: vs, (m, w) :: ws => n == m && same v w && sameFields vs ws
  | _, _ => false

end

instance : BEq ElementValue := ⟨same⟩

end ElementValue

structure Record where
  name : String
  status : Status
  location : Location
  span : Span
  /-- The line on which the reference begins. -/
  snippet : String
  /-- The element values of a reference to an annotation. -/
  values : Option ElementValues := none
  deriving Repr, Inhabited, BEq

namespace Record

/-- The annotation that a record refers to, with its values. -/
def usage? (r : Record) : Option (String × ElementValues) :=
  if r.location == .annotationUse then some (r.name, r.values.getD []) else none

def sameSite (r s : Record) : Bool :=
  r.name == s.name && r.status == s.status && r.location == s.location && r.span == s.span &&
    r.snippet == s.snippet

end Record

end Xref.Reference
