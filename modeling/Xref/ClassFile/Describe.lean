import Xref.ClassFile.Read
import Xref.Java.TypeInfo

/-!
# Class files as descriptions of types

Members that a compiler has made up are left out, and a constructor of an inner class is shown
without the enclosing instance that it takes first.
-/
namespace Xref.ClassFile

open Java Text

namespace Flag

def static : Nat := 0x0008

def bridge : Nat := 0x0040

def varargs : Nat := 0x0080

def interface : Nat := 0x0200

def synthetic : Nat := 0x1000

def annotationType : Nat := 0x2000

def enum : Nat := 0x4000

def isSet (flag flags : Nat) : Bool := flags &&& flag != 0

end Flag

/-- The package of a class. The default package has the empty name. -/
def package (c : ClassFile) : String := ((cutLast '.' c.name).map Prod.fst).getD ""

def kind (c : ClassFile) : TypeKind :=
  if Flag.isSet Flag.annotationType c.flags then .annotationType
  else if Flag.isSet Flag.interface c.flags then .interfaceType
  else if Flag.isSet Flag.enum c.flags then .enumType
  else if c.superclass == some "java.lang.Record" then .recordType
  else .classType

/-- The class whose instances the constructors take first without saying so. -/
def implicitOuter? (c : ClassFile) : Option String := do
  let entry ← c.innerClasses.find? fun e => e.inner == c.name
  if Flag.isSet Flag.static entry.flags then none else entry.outer

def Member.asField (m : Member) (type : String) : FieldInfo where
  name := m.name
  type := .qualified type
  isStatic := Flag.isSet Flag.static m.flags

def fieldInfo? (m : Member) : Option FieldInfo :=
  if Flag.isSet Flag.synthetic m.flags then none
  else (fieldType? m.descriptor).map fun (type, _) => m.asField type

def constructorParams (outer : Option String) (params : List String) : List String :=
  match outer, params with
  | some o, first :: rest => if first == o then rest else params
  | _, _ => params

def asMethod (c : ClassFile) (m : Member) (params : List String) (returned : String) : MethodInfo :=
  let isConstructor := m.name == "<init>"
  let params := if isConstructor then constructorParams c.implicitOuter? params else params
  { name := if isConstructor then simpleName c.name else m.name
    params := params.map .qualified
    returnType := if isConstructor then none else some (.qualified returned)
    isStatic := Flag.isSet Flag.static m.flags
    isVarargs := Flag.isSet Flag.varargs m.flags
    isConstructor := isConstructor }

/-- Whether a compiler has made a method up. -/
def Member.isHidden (m : Member) : Bool :=
  Flag.isSet Flag.synthetic m.flags || Flag.isSet Flag.bridge m.flags || m.name == "<clinit>"

def methodInfo? (c : ClassFile) (m : Member) : Option MethodInfo :=
  if m.isHidden then none
  else (methodType? m.descriptor).map fun (params, returned) => c.asMethod m params returned

def describe (c : ClassFile) (path : String) : TypeInfo where
  name := c.name
  package := c.package
  kind := c.kind
  superclass := c.superclass.map .qualified
  interfaces := c.interfaces.map .qualified
  fields := c.fields.filterMap fieldInfo?
  methods := c.methods.filterMap c.methodInfo?
  origin := .library path

/-- The binary name of the class in a file, by the path of the file in its library. Files that hold
no class, descriptors of modules and packages, other versions of classes, and local and anonymous
classes have none. -/
def entryName? (path : String) : Option String := do
  let stem ← dropEnd? ".class" path
  if (dropStart? "META-INF/" stem).isSome then none
  let simple := lastPiece '/' stem
  if simple == "module-info" || simple == "package-info" then none
  if ((split '$' simple).drop 1).any fun s => s.toList.head?.all Char.isDigit then none
  return binaryName stem

end Xref.ClassFile
