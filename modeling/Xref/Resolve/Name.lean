import Xref.Resolve.Memory
import Xref.Resolve.Recovery

/-!
# Names of types

How a written name is bound. A name can mean an inherited member type, and supertypes are given by
name themselves. The definitions here take the supertypes of a type as a parameter;
`Xref.Resolve.Hierarchy` ties the knot.
-/
namespace Xref.Resolve

open Java Text

/-- A way to ask for a type and its supertypes, in the order in which members are searched. -/
abbrev Lineage := String → Query (List String)

variable (index : TypeIndex) (lineage : Lineage)

def findMemberType (owner simple : String) : Query (Option String) := do
  return ((← lineage owner).map fun t => t ++ "$" ++ simple).find? index.contains

def walkMemberTypes : String → List String → Query (Option String)
  | head, [] => pure (some head)
  | head, segment :: rest => do
    match ← findMemberType index lineage head segment with
    | some next => walkMemberTypes next rest
    | none => return none

/-- A name that begins with its package. Longer packages are tried first. -/
def resolveSegments (segments : List String) : Query (Option String) :=
  Query.firstSome (fun k => do
    match segments.drop k with
    | [] => return none
    | simple :: members =>
      let head := qualify (joinWith "." (segments.take k)) simple
      if index.contains head then walkMemberTypes index lineage head members else return none)
    (List.range segments.length).reverse

def resolveQualified (name : String) : Query (Option String) :=
  resolveSegments index lineage ((split '.' name).map trim)

def ifIndexed (name : String) : Option String := if index.contains name then some name else none

/-- A simple name. The order is: enclosing types and their members from the inside out, imports of
single types, of single static members, the package, imports on demand, `java.lang`. -/
def resolveSimple (simple : String) (ctx : Context) : Query (Option String) :=
  let enclosing := Query.firstSome (fun e =>
    if simpleName e == simple && index.contains e then pure (some e)
    else findMemberType index lineage e simple) ctx.enclosing
  let single := Query.firstSome (fun (i : Import) =>
    if i.simpleName == simple then resolveSegments index lineage (split '.' i.name) else pure none)
    ctx.singleTypeImports
  let static := Query.firstSome (fun (i : Import) => do
    if i.simpleName != simple then return none
    let some qualifier := i.qualifier | return none
    let some owner ← resolveQualified index lineage qualifier | return none
    findMemberType index lineage owner simple)
    (ctx.imports.filter fun i => i.isStatic && !i.onDemand)
  let package : Query (Option String) := pure (ifIndexed index (qualify ctx.package simple))
  let demand := Query.firstSome (fun (i : Import) => do
    let direct := if i.isStatic then none else ifIndexed index (i.name ++ "." ++ simple)
    if direct.isSome then return direct
    let some owner ← resolveQualified index lineage i.name | return none
    findMemberType index lineage owner simple)
    (ctx.imports.filter Import.onDemand)
  let lang : Query (Option String) := pure (ifIndexed index ("java.lang." ++ simple))
  [single, static, package, demand, lang].foldl Query.orElse enclosing

def resolveInScope (segments : List String) (ctx : Context) : Query (Option String) := do
  match segments with
  | [] => return none
  | first :: rest =>
    match ← resolveSimple index lineage first ctx with
    | some head => walkMemberTypes index lineage head rest
    | none => return none

def resolveClassName (name : String) (ctx : Context) : Query (Option String) :=
  let segments := (split '.' name).map trim
  Query.orElse (resolveInScope index lineage segments ctx)
    (if 1 < segments.length then resolveSegments index lineage segments else pure none)

/-- A written type without dimensions. A type variable stands for what `follow` makes of its bound,
or for the root class if it has none. -/
def resolveElement (follow : String → Query String) (name : String) (ctx : Context) :
    Query (Option String) :=
  if isPrimitive name then pure (some name)
  else match ctx.typeVariable? name with
    | some v => some <$> (v.bound.map follow).getD (pure objectName)
    | none => resolveClassName index lineage name ctx

def resolveErased (follow : String → Query String) (name : String) (ctx : Context) :
    Query (Option String) := do
  if (splitArray name).1.isEmpty then return none
  let found ← resolveElement index lineage follow (splitArray name).1 ctx
  return found.map fun r => withDims r (splitArray name).2

/-- A written type. Bounds that are type variables themselves are followed `depth` times at most,
and a bound that cannot be resolved is the root class. -/
def resolveTo : Nat → String → Context → Query (Option String)
  | 0, name, ctx => resolveErased index lineage (fun _ => pure objectName) name ctx
  | depth + 1, name, ctx =>
    resolveErased index lineage
      (fun bound => do return (← resolveTo depth bound ctx).getD objectName) name ctx

def boundDepth : Nat := 8

def resolveType (name : String) (ctx : Context) : Query (Option String) :=
  resolveTo index lineage boundDepth name ctx

/-- A written type, qualified as far as possible if it cannot be bound. -/
def resolveOrRecover (text : String) (ctx : Context) : Query TypeName := do
  match ← resolveType index lineage text ctx with
  | some name => return .resolved name
  | none =>
    let (base, dims) := splitArray text
    let found ← recoverName base ctx.imports fun first => resolveType index lineage first ctx
    return { found with name := withDims found.name dims }

def typeNameOf : TypeRef → Query TypeName
  | .qualified name => pure (.resolved name)
  | .written text ctx => resolveOrRecover index lineage text ctx

end Xref.Resolve
