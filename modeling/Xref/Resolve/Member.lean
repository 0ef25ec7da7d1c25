import Xref.Resolve.Hierarchy

/-!
# Members and assignability

The questions about types that analyses ask: which field, method or constructor a name means in a
type, and whether a value of one type can be used as another. As in `Xref.Resolve.Name`, the
supertypes of a type are a parameter first.
-/
namespace Xref.Resolve

open Java Text

/-- A method or constructor that a lookup has found, with its types qualified. -/
structure Candidate where
  declaringType : String
  declaringKind : TypeKind
  name : String
  params : List String
  returnType : Option TypeName
  isStatic : Bool
  isVarargs : Bool
  isConstructor : Bool
  deriving Repr, DecidableEq, Inhabited

/-- The declaring type, the name unless it is a constructor, and the parameter types. -/
def Candidate.signature (c : Candidate) : String :=
  let params := "(" ++ joinWith "," c.params ++ ")"
  if c.isConstructor then c.declaringType ++ params
  else c.declaringType ++ "." ++ c.name ++ params

section

variable (index : TypeIndex) (lineage : Lineage)

/-- How many steps of boxing, unboxing and taking elements can follow. -/
def assignableRank (source target : String) : Nat :=
  if isPrimitive source then if isPrimitive target then 0 else 2
  else if isPrimitive target || (splitArray source).2 == 0 then 1
  else 2

theorem assignableRank_box {source target box : String} (hs : isPrimitive source)
    (ht : ¬ isPrimitive target) (hb : boxOf source = some box) :
    assignableRank box target < assignableRank source target := by
  obtain ⟨hbox, hdims⟩ := boxOf_spec hb
  simp [assignableRank, hs, ht, hbox, hdims]

theorem assignableRank_unbox {source target primitive : String} (hs : ¬ isPrimitive source)
    (ht : isPrimitive target) (hu : unboxOf source = some primitive) :
    assignableRank primitive target < assignableRank source target := by
  have hprimitive := unboxOf_spec hu
  simp [assignableRank, hs, ht, hprimitive]

theorem assignableRank_element {source target : String} (element : String)
    (hs : ¬ isPrimitive source) (ht : ¬ isPrimitive target) (hd : 0 < (splitArray source).2)
    (he : ¬ isPrimitive (splitArray source).1) :
    assignableRank (splitArray source).1 element < assignableRank source target := by
  have hdims := splitArray_dims source
  have hpos : (splitArray source).2 ≠ 0 := by omega
  simp [assignableRank, hs, ht, he, hdims, hpos]

/-- Whether a value of type `source` can be used as a `target`: by subtyping, primitive widening,
boxing or unboxing, and along arrays. -/
def isAssignable (source target : String) : Query Bool :=
  if source == target then pure true
  else if source == nullName then pure !isPrimitive target
  else if hs : isPrimitive source then
    if ht : isPrimitive target then pure (widensTo source target)
    else match hb : boxOf source with
      | some box =>
        have := assignableRank_box hs ht hb
        isAssignable box target
      | none => pure false
  else if ht : isPrimitive target then
    match hu : unboxOf source with
    | some primitive =>
      have := assignableRank_unbox hs ht hu
      isAssignable primitive target
    | none => pure false
  else if target == objectName then pure true
  else if hd : 0 < (splitArray source).2 then
    if (splitArray target).2 == 0 then
      pure (target == "java.lang.Cloneable" || target == "java.io.Serializable")
    else if (splitArray source).2 == (splitArray target).2 then
      if he : isPrimitive (splitArray source).1 then pure false
      else
        have := assignableRank_element (splitArray target).1 hs ht hd he
        isAssignable (splitArray source).1 (splitArray target).1
    else pure ((splitArray target).2 < (splitArray source).2 && (splitArray target).1 == objectName)
  else if 0 < (splitArray target).2 then pure false
  else return (← lineage source).contains target
termination_by assignableRank source target

def findField (owner name : String) : Query (Option (String × TypeName)) := do
  Query.firstSome (fun t => do
    match (← Query.info index t).bind fun info => info.field? name with
    | some field => return some (t, ← typeNameOf index lineage field.type)
    | none => return none) (← lineage owner)

def candidate (info : TypeInfo) (method : MethodInfo) : Query Candidate := do
  let params ← method.params.mapM fun p => return (← typeNameOf index lineage p).name
  let returnType ← match method.returnType with
    | some ref => pure (some (← typeNameOf index lineage ref))
    | none => pure none
  return {
    declaringType := info.name
    declaringKind := info.kind
    name := method.name
    params := params
    returnType := returnType
    isStatic := method.isStatic
    isVarargs := method.isVarargs
    isConstructor := method.isConstructor }

def addCandidate (found : List Candidate) (c : Candidate) : List Candidate :=
  if found.any fun x => x.params == c.params then found else found ++ [c]

/-- The methods called `name` that `owner` has. Overridden ones are left out. -/
def findMethods (owner name : String) : Query (List Candidate) := do
  (← lineage owner).foldlM (fun found t => do
    match ← Query.info index t with
    | none => return found
    | some info =>
      (info.methodsNamed name).foldlM (fun found m => do
        return addCandidate found (← candidate index lineage info m)) found) []

def constructors (owner : String) : Query (List Candidate) := do
  match ← Query.info index owner with
  | none => return []
  | some info => info.constructors.mapM (candidate index lineage info)

def implementedMethod (implementation : Candidate) : Query (Option Candidate) := do
  if implementation.declaringKind.isInterface || implementation.isConstructor then return none
  Query.firstSome (fun t => do
    match ← Query.info index t with
    | none => return none
    | some info =>
      if !info.kind.isInterface then return none
      Query.firstSome (fun m => do
        let c ← candidate index lineage info m
        return if c.params == implementation.params then some c else none)
        (info.methodsNamed implementation.name))
    (← lineage implementation.declaringType)

end

namespace TypeIndex

variable (index : TypeIndex)

def lineage (q : String) : Query (List String) := linearization index (supertypes index) q

def resolve (name : String) (ctx : Context) : Query (Option String) :=
  resolveType index index.lineage name ctx

def resolveFull (name : String) : Query (Option String) :=
  resolveQualified index index.lineage name

def typeName (text : String) (ctx : Context) : Query TypeName :=
  resolveOrRecover index index.lineage text ctx

def refName (ref : TypeRef) : Query TypeName := typeNameOf index index.lineage ref

def memberType (owner simple : String) : Query (Option String) :=
  findMemberType index index.lineage owner simple

def superclass (q : String) : Query (Option String) := do
  return (← supertypes index q).superclass

def isAssignable (source target : String) : Query Bool :=
  Resolve.isAssignable index.lineage source target

def findField (owner name : String) : Query (Option (String × TypeName)) :=
  Resolve.findField index index.lineage owner name

def findMethods (owner name : String) : Query (List Candidate) :=
  Resolve.findMethods index index.lineage owner name

def constructors (owner : String) : Query (List Candidate) :=
  Resolve.constructors index index.lineage owner

def implementedMethod (implementation : Candidate) : Query (Option Candidate) :=
  Resolve.implementedMethod index index.lineage implementation

end TypeIndex

end Xref.Resolve
