import Xref.ClassFile.Read

/-!
# The layout of class files

A class file as the format sees it: a pool of constants, and tables that refer to the pool by index.
Indices carry a proof that they lead to a constant of the right kind, and tables a proof that their
length can be written.
-/
namespace Xref.ClassFile

def twoBytes (n : Nat) : List UInt8 := [UInt8.ofNat (n / 256), UInt8.ofNat (n % 256)]

def fourBytes (n : Nat) : List UInt8 := twoBytes (n / 65536) ++ twoBytes (n % 65536)

abbrev Table (α : Type) := { items : List α // items.length < 65536 }

def Table.bytes {α : Type} (encode : α → List UInt8) (t : Table α) : List UInt8 :=
  twoBytes t.val.length ++ t.val.flatMap encode

/-- A code unit of 16 bits in up to three bytes. The unit zero takes two. -/
def unitBytes (n : Nat) : List UInt8 :=
  if 0 < n ∧ n < 0x80 then [UInt8.ofNat n]
  else if n < 0x800 then [UInt8.ofNat (0xC0 + n / 64), UInt8.ofNat (0x80 + n % 64)]
  else [UInt8.ofNat (0xE0 + n / 4096), UInt8.ofNat (0x80 + n / 64 % 64),
    UInt8.ofNat (0x80 + n % 64)]

/-- A character as class files have it. A supplementary one is two code units. -/
def charBytes (c : Char) : List UInt8 :=
  if c.toNat < 0x10000 then unitBytes c.toNat
  else unitBytes (0xD800 + (c.toNat - 0x10000) / 0x400) ++
    unitBytes (0xDC00 + (c.toNat - 0x10000) % 0x400)

/-- A text without NUL and supplementary characters that is not too long for the pool. -/
structure PlainText where
  text : String
  plain : ∀ c ∈ text.toList, 0 < c.toNat ∧ c.toNat < 0x10000
  fits : (text.toList.flatMap charBytes).length < 65536

def PlainText.bytes (t : PlainText) : List UInt8 := t.text.toList.flatMap charBytes

inductive Entry where
  | utf8 (text : PlainText)
  | integer (bits : UInt32)
  | float (bits : UInt32)
  | long (high low : UInt32)
  | double (high low : UInt32)
  | classEntry (name : UInt16)
  | string (text : UInt16)
  | fieldRef (owner nameAndType : UInt16)
  | methodRef (owner nameAndType : UInt16)
  | interfaceMethodRef (owner nameAndType : UInt16)
  | nameAndType (name descriptor : UInt16)
  | methodHandle (kind : UInt8) (reference : UInt16)
  | methodType (descriptor : UInt16)
  | dynamic (bootstrap nameAndType : UInt16)
  | invokeDynamic (bootstrap nameAndType : UInt16)
  | moduleEntry (name : UInt16)
  | packageEntry (name : UInt16)

namespace Entry

def tag : Entry → UInt8
  | utf8 _ => 1
  | integer _ => 3
  | float _ => 4
  | long _ _ => 5
  | double _ _ => 6
  | classEntry _ => 7
  | string _ => 8
  | fieldRef _ _ => 9
  | methodRef _ _ => 10
  | interfaceMethodRef _ _ => 11
  | nameAndType _ _ => 12
  | methodHandle _ _ => 15
  | methodType _ => 16
  | dynamic _ _ => 17
  | invokeDynamic _ _ => 18
  | moduleEntry _ => 19
  | packageEntry _ => 20

def content : Entry → List UInt8
  | utf8 text => twoBytes text.bytes.length ++ text.bytes
  | integer bits | float bits => fourBytes bits.toNat
  | long high low | double high low => fourBytes high.toNat ++ fourBytes low.toNat
  | classEntry i | string i | methodType i | moduleEntry i | packageEntry i => twoBytes i.toNat
  | fieldRef i j | methodRef i j | interfaceMethodRef i j | nameAndType i j | dynamic i j
  | invokeDynamic i j => twoBytes i.toNat ++ twoBytes j.toNat
  | methodHandle kind i => kind :: twoBytes i.toNat

def bytes (e : Entry) : List UInt8 := e.tag :: e.content

/-- The slots of the pool that an entry takes. The second slot of a wide entry is unusable. -/
def slots (e : Entry) : List (Option Entry) :=
  match e with
  | long _ _ | double _ _ => [some e, none]
  | _ => [some e]

end Entry

/-- The entries of a pool, which takes one slot more than its entries do. -/
structure Pool where
  entries : List Entry
  fits : (entries.flatMap Entry.slots).length + 1 < 65536

namespace Pool

/-- Slot zero is unusable. -/
def slots (p : Pool) : List (Option Entry) := none :: p.entries.flatMap Entry.slots

def entryAt (p : Pool) (index : UInt16) : Option Entry := (p.slots[index.toNat]?).join

def bytes (p : Pool) : List UInt8 :=
  twoBytes p.slots.length ++ p.entries.flatMap Entry.bytes

end Pool

structure TextIndex (p : Pool) where
  index : UInt16
  text : PlainText
  found : p.entryAt index = some (.utf8 text)

structure ClassIndex (p : Pool) where
  index : UInt16
  name : TextIndex p
  found : p.entryAt index = some (.classEntry name.index)

variable {p : Pool}

namespace ClassIndex

/-- The name of the class, with dots between its packages. -/
def binary (c : ClassIndex p) : String := binaryName c.name.text.text

def bytes (c : ClassIndex p) : List UInt8 := twoBytes c.index.toNat

/-- The index zero stands for no class. -/
def optIndex (c : Option (ClassIndex p)) : UInt16 := c.elim 0 index

end ClassIndex

structure Attribute (p : Pool) where
  name : TextIndex p
  info : List UInt8
  fits : info.length < 4294967296

def Attribute.bytes {p : Pool} (a : Attribute p) : List UInt8 :=
  twoBytes a.name.index.toNat ++ fourBytes a.info.length ++ a.info

structure MemberLayout (p : Pool) where
  flags : UInt16
  name : TextIndex p
  descriptor : TextIndex p
  attributes : Table (Attribute p)

namespace MemberLayout

def bytes (m : MemberLayout p) : List UInt8 :=
  twoBytes m.flags.toNat ++ twoBytes m.name.index.toNat ++ twoBytes m.descriptor.index.toNat ++
    m.attributes.bytes Attribute.bytes

def summary (m : MemberLayout p) : Member where
  flags := m.flags.toNat
  name := m.name.text.text
  descriptor := m.descriptor.text.text

end MemberLayout

structure InnerClassLayout (p : Pool) where
  inner : ClassIndex p
  outer : Option (ClassIndex p)
  /-- The simple name, which an anonymous class has not. -/
  simple : Option (TextIndex p)
  flags : UInt16

namespace InnerClassLayout

def bytes (c : InnerClassLayout p) : List UInt8 :=
  c.inner.bytes ++ twoBytes (ClassIndex.optIndex c.outer).toNat ++
    twoBytes (c.simple.elim 0 TextIndex.index).toNat ++ twoBytes c.flags.toNat

def summary (c : InnerClassLayout p) : InnerClass where
  inner := c.inner.binary
  outer := c.outer.map ClassIndex.binary
  flags := c.flags.toNat

end InnerClassLayout

def innerClassesName : String := "InnerClasses"

inductive ClassAttribute (p : Pool) where
  | innerClasses (name : TextIndex p) (named : name.text.text = innerClassesName)
      (classes : Table (InnerClassLayout p))
  | other (a : Attribute p) (named : a.name.text.text ≠ innerClassesName)

namespace ClassAttribute

/-- The list of inner classes takes two bytes for its length and eight for each class. -/
def bytes : ClassAttribute p → List UInt8
  | innerClasses name _ classes =>
    twoBytes name.index.toNat ++ fourBytes (2 + 8 * classes.val.length) ++
      classes.bytes InnerClassLayout.bytes
  | other a _ => a.bytes

def summary : ClassAttribute p → List InnerClass
  | innerClasses _ _ classes => classes.val.map InnerClassLayout.summary
  | other _ _ => []

end ClassAttribute

structure Layout where
  minor : UInt16
  major : UInt16
  pool : Pool
  flags : UInt16
  self : ClassIndex pool
  superclass : Option (ClassIndex pool)
  interfaces : Table (ClassIndex pool)
  fields : Table (MemberLayout pool)
  methods : Table (MemberLayout pool)
  attributes : Table (ClassAttribute pool)

namespace Layout

def bytes (l : Layout) : List UInt8 :=
  fourBytes magic ++ (twoBytes l.minor.toNat ++ twoBytes l.major.toNat) ++ l.pool.bytes ++
    twoBytes l.flags.toNat ++ l.self.bytes ++ twoBytes (ClassIndex.optIndex l.superclass).toNat ++
    l.interfaces.bytes ClassIndex.bytes ++ l.fields.bytes MemberLayout.bytes ++
    l.methods.bytes MemberLayout.bytes ++ l.attributes.bytes ClassAttribute.bytes

def summary (l : Layout) : ClassFile where
  flags := l.flags.toNat
  name := l.self.binary
  superclass := l.superclass.map ClassIndex.binary
  interfaces := l.interfaces.val.map ClassIndex.binary
  fields := l.fields.val.map MemberLayout.summary
  methods := l.methods.val.map MemberLayout.summary
  innerClasses := l.attributes.val.flatMap ClassAttribute.summary

end Layout

end Xref.ClassFile
