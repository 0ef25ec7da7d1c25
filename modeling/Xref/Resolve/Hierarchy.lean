import Xref.Resolve.Name

/-!
# Supertypes

The direct supertypes of a type, worked out from its description and remembered, and the order in
which all supertypes are searched. A type is active while its supertypes are worked out, so the
nesting is bounded by the number of indexed types.
-/
namespace Xref.Resolve

open Java

abbrev Ask := String → Query Supertypes

variable (index : TypeIndex)

section

variable (ask : Ask)

def addNew (order : List String) (name : String) : List String :=
  if order.contains name then order else order ++ [name]

/-- Follows superclasses from `current` until one is missing or comes again. -/
def superclassChain : Nat → String → List String → Query (List String)
  | 0, _, order => pure order
  | n + 1, current, order => do
    match (← ask current).superclass with
    | none => return order
    | some s => if order.contains s then return order else superclassChain n s (order ++ [s])

def addSupertypes (order : List String) (q : String) : Query (List String) := do
  return (← ask q).direct.foldl addNew order

/-- Adds the direct supertypes of the types of `layer`, then those of the types that came new. -/
def widen : Nat → List String → List String → Query (List String)
  | 0, _, order => pure order
  | n + 1, layer, order => do
    let wider ← layer.foldlM (addSupertypes ask) order
    let next := wider.drop order.length
    if next.isEmpty then return wider else widen n next wider

/-- A type, its superclasses, then all other supertypes breadth first. The root class is there at
the end at the latest. -/
def linearization (q : String) : Query (List String) := do
  let chain ← superclassChain ask (index.names.length + 2) q [q]
  let order ← widen ask (index.names.length + 2) chain chain
  return if index.contains objectName then addNew order objectName else order

end

section

variable (lineage : Lineage)

def implicitSuperclass (kind : TypeKind) : Option String :=
  let known (own : String) : Option String :=
    if index.contains own then some own
    else if index.contains objectName then some objectName
    else none
  match kind with
  | .enumType => known "java.lang.Enum"
  | .recordType => known "java.lang.Record"
  | .classType => known objectName
  | .interfaceType | .annotationType => none

/-- A supertype by its reference. It counts if it is bound and not the type itself. -/
def supertypeOf (self : String) (ref : TypeRef) : Query (Option String) := do
  let found ← typeNameOf index lineage ref
  return if found.isResolved && found.name != self then some found.name else none

def superclassOf (info : TypeInfo) : Query (Option String) := do
  if info.name == objectName then return none
  match info.superclass with
  | some ref => supertypeOf index lineage info.name ref
  | none => return implicitSuperclass index info.kind

def describeSupertypes (q : String) (info : TypeInfo) : Query Supertypes := do
  let superclass ← superclassOf index lineage info
  let interfaces ← info.interfaces.filterMapM (supertypeOf index lineage q)
  return ⟨superclass, interfaces⟩

/-- The direct supertypes of `q`, worked out from its description. A type without one has none. -/
def findSupertypes (q : String) : Query Supertypes := do
  match ← Query.info index q with
  | some info => describeSupertypes index lineage q info
  | none => return {}

/-- The direct supertypes of `q`, where those of other types are asked for by `lineage`. -/
def supertypesBy (q : String) : Query Supertypes := do
  let memory ← get
  match memory.known.lookup q with
  | some s => return s
  | none =>
    if memory.active.contains q then return {}
    modify fun m => m.enter q
    let result ← findSupertypes index lineage q
    modify fun m => m.leave q result
    return result

end

/-- The direct supertypes of a type, with at most `n` types active inside each other. -/
def supertypesWithin : Nat → Ask
  | 0, _ => pure {}
  | n + 1, q => supertypesBy index (linearization index (supertypesWithin n)) q

def supertypes : Ask := supertypesWithin index (index.names.length + 1)

end Xref.Resolve
