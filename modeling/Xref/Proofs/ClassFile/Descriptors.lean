import Mathlib.Data.List.TakeDrop
import Xref.ClassFile.Descriptor
import Xref.Proofs.Text.Pieces

/-!
# Descriptors say where they end

A descriptor is read back as the type that it spells, whatever follows it, and its length in bytes
is found exactly. So the descriptors of parameters can stand side by side.
-/
open List

namespace Xref.ClassFile

open Java Text

inductive Primitive where
  | byte | char | double | float | int | long | short | boolean
  deriving Repr, DecidableEq

namespace Primitive

def letter : Primitive → Char
  | byte => 'B'
  | char => 'C'
  | double => 'D'
  | float => 'F'
  | int => 'I'
  | long => 'J'
  | short => 'S'
  | boolean => 'Z'

def keyword : Primitive → String
  | byte => "byte"
  | char => "char"
  | double => "double"
  | float => "float"
  | int => "int"
  | long => "long"
  | short => "short"
  | boolean => "boolean"

end Primitive

/-- The types that descriptors spell. The name of a class ends at the first semicolon. -/
inductive FieldType where
  | primitive (p : Primitive)
  | reference (internal : String) (closed : ';' ∉ internal.toList)
  | array (element : FieldType)

namespace FieldType

def descriptor : FieldType → String
  | primitive p => String.singleton p.letter
  | reference internal _ => "L" ++ internal ++ ";"
  | array element => "[" ++ element.descriptor

def spelling : FieldType → String
  | primitive p => p.keyword
  | reference internal _ => String.ofList (internal.toList.map fun c => if c = '/' then '.' else c)
  | array element => element.spelling ++ "[]"

end FieldType

/-- The descriptor of a method. A method that returns nothing has no returned type. -/
def methodDescriptor (params : List FieldType) (returned : Option FieldType) : String :=
  "(" ++ String.join (params.map FieldType.descriptor) ++ ")" ++
    returned.elim "V" FieldType.descriptor

lemma readType_of_ne {c : Char} (h : c ≠ '[') (cs : List Char) :
    readType (c :: cs) = readBase (c :: cs) := by
  cases hbase : readBase (c :: cs) with
  | none => simp [readType, span_eq_takeWhile_dropWhile, h, hbase]
  | some found => simp [readType, span_eq_takeWhile_dropWhile, h, hbase, withDims]

lemma readType_bracket (cs : List Char) :
    readType ('[' :: cs) = (readType cs).map fun found => (found.1 ++ "[]", found.2) := by
  simp only [readType, span_eq_takeWhile_dropWhile, takeWhile_cons, dropWhile_cons,
    beq_self_eq_true, if_true, length_cons, Option.map_map]
  congr 1
  funext found
  simp [withDims, replicate_succ', String.ofList_append, String.append_assoc]

lemma readType_descriptor (t : FieldType) (after : List Char) :
    readType (t.descriptor.toList ++ after) = some (t.spelling, after) := by
  induction t with
  | primitive p =>
    rw [FieldType.descriptor, String.toList_singleton, singleton_append,
      readType_of_ne (by cases p <;> decide)]
    cases p <;> rfl
  | reference internal closed =>
    have hcut : cutChars ';' (internal.toList ++ ';' :: after) = some (internal.toList, after) :=
      cutChars_eq_some.mpr ⟨closed, rfl⟩
    simp only [FieldType.descriptor, String.toList_append, append_assoc]
    change readType ('L' :: (internal.toList ++ ';' :: after)) = _
    rw [readType_of_ne (by decide), readBase, if_pos (by decide), hcut]
    simp [FieldType.spelling, binaryName, replaceChar]
  | array element ih =>
    rw [FieldType.descriptor, String.toList_append, append_assoc]
    change readType ('[' :: (element.descriptor.toList ++ after)) = _
    rw [readType_bracket, ih]
    rfl

lemma fieldType?_descriptor (t : FieldType) (following : String) :
    fieldType? (t.descriptor ++ following) = some (t.spelling, t.descriptor.utf8ByteSize) := by
  simp [fieldType?, readType_descriptor, String.utf8ByteSize_append]

lemma exists_descriptor_cons (t : FieldType) : ∃ c cs, t.descriptor.toList = c :: cs ∧ c ≠ ')' := by
  cases t with
  | primitive p => exact ⟨p.letter, [], by simp [FieldType.descriptor], by cases p <;> decide⟩
  | reference internal _ =>
    exact ⟨'L', internal.toList ++ [';'], by simp [FieldType.descriptor], by decide⟩
  | array element =>
    exact ⟨'[', element.descriptor.toList, by simp [FieldType.descriptor], by decide⟩

lemma readParams_descriptors (params : List FieldType) (after : List Char) {rounds : Nat}
    (h : (params.flatMap fun t => t.descriptor.toList).length < rounds) :
    readParams rounds ((params.flatMap fun t => t.descriptor.toList) ++ ')' :: after) =
      some (params.map FieldType.spelling, after) := by
  induction params generalizing rounds with
  | nil =>
    obtain ⟨n, rfl⟩ := Nat.exists_eq_add_of_lt h
    simp [readParams]
  | cons t params ih =>
    obtain ⟨c, cs, hcs, hc⟩ := exists_descriptor_cons t
    have hread := readType_descriptor t
      ((params.flatMap fun t => t.descriptor.toList) ++ ')' :: after)
    rw [flatMap_cons] at h ⊢
    rw [append_assoc]
    rw [hcs, cons_append] at h hread ⊢
    rw [length_cons, length_append] at h
    obtain ⟨n, rfl⟩ := Nat.exists_eq_add_of_lt h
    rw [readParams.eq_3 _ _ (by simpa using hc), hread]
    simp only [Option.bind_eq_bind, Option.bind_some]
    rw [ih (by omega)]
    rfl

lemma methodType?_descriptor (params : List FieldType) (returned : Option FieldType) :
    methodType? (methodDescriptor params returned) =
      some (params.map FieldType.spelling, returned.elim "void" FieldType.spelling) := by
  have hchars : (methodDescriptor params returned).toList =
      '(' :: ((params.flatMap fun t => t.descriptor.toList) ++
        ')' :: (returned.elim "V" FieldType.descriptor).toList) := by
    simp [methodDescriptor, flatMap_map]
  have hreturned : readType (returned.elim "V" FieldType.descriptor).toList =
      some (returned.elim "void" FieldType.spelling, []) := by
    cases returned with
    | none => rfl
    | some t => simpa using readType_descriptor t []
  simp only [methodType?, hchars]
  rw [readParams_descriptors params _ (by rw [length_append]; omega)]
  simp [hreturned]

/-- A type is read back from its descriptor together with the number of its bytes, whatever follows,
and the types of a method from theirs. -/
theorem types_of_descriptors :
    (∀ (t : FieldType) (following : String),
      fieldType? (t.descriptor ++ following) = some (t.spelling, t.descriptor.utf8ByteSize)) ∧
    ∀ (params : List FieldType) (returned : Option FieldType),
      methodType? (methodDescriptor params returned) =
        some (params.map FieldType.spelling, returned.elim "void" FieldType.spelling) :=
  ⟨fieldType?_descriptor, methodType?_descriptor⟩

end Xref.ClassFile
