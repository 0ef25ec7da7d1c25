import Xref.Reference.Overload
import Xref.Reference.Typing

/-!
# What calls mean

A call is bound to the best of the methods that its receiver has. If that method implements a
method of an interface, the call refers to both. A call that cannot be bound is reported by its
receiver, its name and the types of its arguments, as far as these are known.
-/
namespace Xref.Reference

open Java Resolve Syntax Text

inductive Target where
  | owner (type : String)
  | found (owner : String) (candidates : List Candidate)
  | unbound (receiver : Option String)

namespace Walk

def knownNames (args : List (Option TypeName)) : List (Option String) :=
  args.map fun a => a.map TypeName.name

def argumentTypes (cs : Sense) : Walk (List (Option TypeName)) :=
  match cs.child? .arguments with
  | none => pure []
  | some (_, list) =>
    (list.parts.named.filter fun a => !a.1.kind.isComment).mapM fun a => a.2.value.type

def findMethods (owner name : String) : Walk (List Candidate) :=
  ask fun index => index.findMethods owner name

/-- The methods that a call without a receiver can mean: those of the innermost enclosing type that
has any, or else static ones that are imported. -/
def implicitTarget (name : String) : Walk Target := do
  let fromFrame (owner : String) : Walk (Option Target) := do
    let candidates ← findMethods owner name
    return if candidates.isEmpty then none else some (.found owner candidates)
  let fromImport (owner : String) : Walk (Option Target) := do
    let candidates := (← findMethods owner name).filter Candidate.isStatic
    return if candidates.isEmpty then none else some (.found owner candidates)
  match ← firstSome fromFrame (← setting).frames with
  | some target => return target
  | none => return (← firstSome fromImport (← staticImports name)).getD (.unbound none)

def receiverTarget (object : Tree) (meaning : Meaning) : Walk Target := do
  if object.kind == .superKeyword then
    match ← superType with
    | some owner => return .owner owner.name
    | none => return .unbound (some objectName)
  match ← meaning.operand with
  | .value (some type) =>
    if !type.isResolved then return .unbound (some type.name)
    return .owner (if isArray type.name then objectName else type.name)
  | .value none =>
    match ← dotted object with
    | some name => return .unbound (some (← recover name).name)
    | none => return .unbound none
  | .type owner => return .owner owner
  | .package name | .unknown name => return .unbound (some (← recover name).name)

def bindCall (owner name : String) (candidates : List Candidate) (args : List (Option TypeName)) :
    Walk CallOutcome := do
  match ← ask fun index => Overload.select index candidates args with
  | none =>
    return { calls := [.recovered (literalCall (some owner) name (knownNames args))] }
  | some method =>
    let signature := method.signature
    let implemented ← ask fun index => index.implementedMethod method
    let more := (implemented.map Candidate.signature).filter fun s => s != signature
    return {
      calls := .resolved signature :: more.toList.map .resolved
      returnType := method.returnType }

def callTarget (cs : Sense) (name : String) : Walk Target :=
  match cs.child? .object with
  | none => implicitTarget name
  | some (object, meaning) => receiverTarget object meaning.value

def bindInvocation (t : Tree) (cs : Sense) : Walk CallOutcome := do
  match t.child? .name with
  | none => return {}
  | some nameTree =>
    let name ← text nameTree
    let args ← argumentTypes cs
    match ← callTarget cs name with
    | .owner owner => bindCall owner name (← findMethods owner name) args
    | .found owner candidates => bindCall owner name candidates args
    | .unbound receiver =>
      return { calls := [.unresolved (literalCall receiver name (knownNames args))] }

def bindConstructor (owner : String) (args : List (Option TypeName)) : Walk (List TypeName) := do
  let candidates ← ask fun index => index.constructors owner
  match ← ask fun index => Overload.select index candidates args with
  | some c => return [.resolved c.signature]
  | none => return [.recovered (literalCall none owner (knownNames args))]

/-- The constructor that `new` calls. An anonymous implementation of an interface has one without
parameters. -/
def creationCalls (t : Tree) (cs : Sense) : Walk (List TypeName) := do
  let args ← argumentTypes cs
  match ← creationOwner t cs with
  | none => return []
  | some owner =>
    if !owner.isResolved then
      return [.unresolved (literalCall none owner.name (knownNames args))]
    let info ← ask fun index => Query.info index owner.name
    if (t.childOf? .classBody).isSome && info.any fun i => i.kind.isInterface then
      return [.resolved (owner.name ++ "()")]
    bindConstructor owner.name args

/-- The type whose constructor `this(…)` or `super(…)` calls in the type `current`. -/
def constructorOwner (t : Tree) (current : String) : Walk (Option String) :=
  if (t.child? .constructor).any fun c => c.kind == .superKeyword then
    ask fun index => index.superclass current
  else pure (some current)

def writtenSuperclass (current : String) : Walk String := do
  match (← ask fun index => Query.info index current).bind TypeInfo.superclass with
  | some ref => return (← ask fun index => index.refName ref).name
  | none => return objectName

def explicitConstructorCalls (t : Tree) (cs : Sense) : Walk (List TypeName) := do
  let args ← argumentTypes cs
  match ← currentType with
  | none => return []
  | some current =>
    match ← constructorOwner t current with
    | some owner => bindConstructor owner args
    | none =>
      let written ← writtenSuperclass current
      return [.unresolved (literalCall none written (knownNames args))]

end Walk

end Xref.Reference
