import Xref.Java.Name

/-!
# Descriptors

The types of fields and methods as class files spell them. A descriptor is read from the left, and
what follows it does not matter.
-/
namespace Xref.ClassFile

open Java Text

def binaryName (internal : String) : String := replaceChar '/' '.' internal

def primitiveLetters : List (Char × String) :=
  [('B', "byte"), ('C', "char"), ('D', "double"), ('F', "float"), ('I', "int"), ('J', "long"),
   ('S', "short"), ('Z', "boolean"), ('V', "void")]

def readBase : List Char → Option (String × List Char)
  | [] => none
  | c :: rest =>
    if c == 'L' then
      (cutChars ';' rest).map fun (name, after) => (binaryName (String.ofList name), after)
    else (primitiveLetters.lookup c).map fun name => (name, rest)

def readType (cs : List Char) : Option (String × List Char) :=
  let (dims, rest) := cs.span (· == '[')
  (readBase rest).map fun (base, after) => (withDims base dims.length, after)

/-- The type of a field, and the number of bytes of its descriptor. -/
def fieldType? (descriptor : String) : Option (String × Nat) :=
  (readType descriptor.toList).map fun (type, rest) =>
    (type, descriptor.utf8ByteSize - (String.ofList rest).utf8ByteSize)

/-- Types up to a closing parenthesis, and what follows that. -/
def readParams : Nat → List Char → Option (List String × List Char)
  | 0, _ => none
  | _ + 1, ')' :: rest => some ([], rest)
  | n + 1, cs => do
    let (type, rest) ← readType cs
    let (types, rest) ← readParams n rest
    return (type :: types, rest)

def methodType? (descriptor : String) : Option (List String × String) :=
  match descriptor.toList with
  | '(' :: cs => do
    let (params, rest) ← readParams (cs.length + 1) cs
    let (returned, _) ← readType rest
    return (params, returned)
  | _ => none

end Xref.ClassFile
