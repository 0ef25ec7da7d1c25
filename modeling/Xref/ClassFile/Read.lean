import Xref.ClassFile.Descriptor
import Xref.Text.Utf8

/-!
# Class files

What name resolution needs of a class file: the names of the class and of its supertypes, its flags,
and the names and descriptors of its members. All else is skipped.
-/
namespace Xref

open Text

namespace ClassFile

inductive Cause where
  | unexpectedEnd
  | badMagic
  | unknownTag (tag : Nat)
  | notText (index : Nat)
  | notClass (index : Nat)
  deriving Repr, DecidableEq

def Cause.message : Cause → String
  | unexpectedEnd => "unexpected end of class file"
  | badMagic => "bad magic number"
  | unknownTag tag => "unknown constant pool tag " ++ toString tag
  | notText index => "constant " ++ toString index ++ " is not a UTF-8 entry"
  | notClass index => "constant " ++ toString index ++ " is not a class entry"

structure Fault where
  cause : Cause
  offset : Nat
  deriving Repr, DecidableEq

def Fault.message (f : Fault) : String := f.cause.message ++ " at offset " ++ toString f.offset

/-- The bytes still to be read, and how many have been read. -/
structure Cursor where
  rest : List UInt8
  offset : Nat
  deriving Repr, DecidableEq

abbrev Decode := StateT Cursor (Except Fault)

def splitBytes : Nat → List UInt8 → Option (List UInt8 × List UInt8)
  | 0, bs => some ([], bs)
  | _ + 1, [] => none
  | n + 1, b :: bs => (splitBytes n bs).map fun (taken, rest) => (b :: taken, rest)

def refuse {α : Type} (cause : Cause) : Decode α := fun c => .error ⟨cause, c.offset⟩

def take (n : Nat) : Decode (List UInt8) := fun c =>
  match splitBytes n c.rest with
  | some (taken, rest) => .ok (taken, ⟨rest, c.offset + n⟩)
  | none => .error ⟨.unexpectedEnd, c.offset⟩

def skip (n : Nat) : Decode Unit := discard (take n)

def bigEndian (bs : List UInt8) : Nat := bs.foldl (fun n b => n * 256 + b.toNat) 0

def number (n : Nat) : Decode Nat := do return bigEndian (← take n)

def u1 : Decode Nat := number 1

def u2 : Decode Nat := number 2

def u4 : Decode Nat := number 4

def times {α : Type} (item : Decode α) : Nat → Decode (List α)
  | 0 => return []
  | n + 1 => do
    let first ← item
    return first :: (← times item n)

inductive Constant where
  | text (s : String)
  /-- A class, by the index of its name. -/
  | classRef (name : Nat)
  | other
  /-- The slot zero, or the second slot of a wide constant. -/
  | unusable
  deriving Repr, DecidableEq, Inhabited

def constant : Decode (List Constant) := do
  let tag ← u1
  if tag == 1 then return [.text (decodeLossy (← take (← u2)))]
  else if tag == 7 then return [.classRef (← u2)]
  else if [8, 16, 19, 20].contains tag then skip 2; return [.other]
  else if tag == 15 then skip 3; return [.other]
  else if [3, 4, 9, 10, 11, 12, 17, 18].contains tag then skip 4; return [.other]
  else if tag == 5 || tag == 6 then skip 8; return [.other, .unusable]
  else refuse (.unknownTag tag)

/-- Constants until `slots` slots are filled. A wide constant may reach beyond the last one. -/
def constants : Nat → Decode (List Constant)
  | 0 => return []
  | 1 => do return (← constant).take 1
  | n + 2 => do
    match ← constant with
    | [one] => return one :: (← constants (n + 1))
    | filled => return filled ++ (← constants n)

/-- The constant pool. Its slots are counted from zero, and slot zero is never used. -/
def constantPool : Decode (List Constant) := do
  let count ← u2
  return .unusable :: (← constants (count - 1))

def textAt (pool : List Constant) (index : Nat) : Decode String :=
  match pool[index]? with
  | some (.text s) => return s
  | _ => refuse (.notText index)

def classAt (pool : List Constant) (index : Nat) : Decode String :=
  match pool[index]? with
  | some (.classRef name) => do return binaryName (← textAt pool name)
  | _ => refuse (.notClass index)

/-- The class at an index, where zero stands for none. -/
def optClassAt (pool : List Constant) (index : Nat) : Decode (Option String) :=
  if index == 0 then return none else do return some (← classAt pool index)

structure Member where
  flags : Nat
  name : String
  descriptor : String
  deriving Repr, DecidableEq

structure InnerClass where
  inner : String
  outer : Option String
  flags : Nat
  deriving Repr, DecidableEq

def skipAttribute : Decode Unit := do
  skip 2
  skip (← u4)

def member (pool : List Constant) : Decode Member := do
  let flags ← u2
  let nameIndex ← u2
  let descriptorIndex ← u2
  let name ← textAt pool nameIndex
  let descriptor ← textAt pool descriptorIndex
  discard (times skipAttribute (← u2))
  return { flags := flags, name := name, descriptor := descriptor }

def innerClass (pool : List Constant) : Decode InnerClass := do
  let inner ← u2
  let outer ← u2
  skip 2
  let flags ← u2
  return { inner := ← classAt pool inner, outer := ← optClassAt pool outer, flags := flags }

/-- The inner classes that an attribute of the class lists. -/
def classAttribute (pool : List Constant) : Decode (List InnerClass) := do
  let name ← u2
  let length ← u4
  if pool[name]? == some (.text "InnerClasses") then times (innerClass pool) (← u2)
  else
    skip length
    return []

end ClassFile

structure ClassFile where
  flags : Nat
  name : String
  superclass : Option String
  interfaces : List String
  fields : List ClassFile.Member
  methods : List ClassFile.Member
  innerClasses : List ClassFile.InnerClass
  deriving Repr, DecidableEq

namespace ClassFile

def magic : Nat := 0xCAFEBABE

/-- What follows the constant pool. -/
def classBody (pool : List Constant) : Decode ClassFile := do
  let flags ← u2
  let name ← classAt pool (← u2)
  let superclass ← optClassAt pool (← u2)
  let interfaces ← times (do classAt pool (← u2)) (← u2)
  let fields ← times (member pool) (← u2)
  let methods ← times (member pool) (← u2)
  let attributes ← times (classAttribute pool) (← u2)
  return {
    flags := flags
    name := name
    superclass := superclass
    interfaces := interfaces
    fields := fields
    methods := methods
    innerClasses := attributes.flatten }

def classFile : Decode ClassFile := do
  if (← u4) != magic then refuse .badMagic
  skip 4
  classBody (← constantPool)

/-- The class file at the beginning of a sequence of bytes. What follows it is ignored. -/
def ofBytes (bs : List UInt8) : Except Fault ClassFile :=
  (classFile.run ⟨bs, 0⟩).map Prod.fst

def Fault.report (f : Fault) (path : String) : String :=
  "class file error: " ++ f.message ++ " (path: " ++ path ++ ")"

end ClassFile

end Xref
