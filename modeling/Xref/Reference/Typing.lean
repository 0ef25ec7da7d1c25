import Xref.Reference.Place

/-!
# Types of expressions

Typing is shallow. It follows declared types, erased signatures and the rules for literals and
operators, and gives no type where generics or lambdas would be needed.
-/
namespace Xref.Reference

open Java Resolve Syntax Text

inductive Operand where
  /-- A value, with its type if that is known. -/
  | value (type : Option TypeName)
  /-- A type whose static members are meant. -/
  | type (name : String)
  | package (name : String)
  | unknown (name : String)
  deriving Repr, DecidableEq, Inhabited

/-- A call in a chain of calls such as `a.b().c()`. -/
structure Link where
  tree : Tree
  call : Walk CallOutcome
  /-- The references in its parts, without those in a receiver that is a call itself. -/
  parts : Walk Unit

/-- What a tree means. Which of these is asked depends on the tree around it. -/
structure Meaning where
  type : Walk (Option TypeName)
  /-- As a chain of binary operators: the type of its leftmost operand. -/
  leftmost : Walk (Option TypeName)
  /-- As a chain of binary operators: how each operator, from the left, goes on from the type of
  what stands before it. -/
  steps : List (Option TypeName → Walk (Option TypeName))
  operand : Walk Operand
  element : Walk ElementValue
  /-- As a chain of calls: its calls, the last one first. -/
  links : List Link
  visit : Walk Unit
  /-- As a chain of binary operators: the references in its operands from left to right. -/
  operands : List (Walk Unit)

abbrev Sense := Parts Meaning

def numericRank : List String := ["int", "long", "float", "double"]

/-- The type of an operand of a numeric operator after promotion. -/
def unaryPromotion (name : String) : Option String :=
  match unboxed name with
  | "byte" | "short" | "char" | "int" => some "int"
  | "long" => some "long"
  | "float" => some "float"
  | "double" => some "double"
  | _ => none

def binaryPromotion (left right : String) : Option String := do
  let l ← numericRank.idxOf? (← unaryPromotion left)
  let r ← numericRank.idxOf? (← unaryPromotion right)
  numericRank[max l r]?

/-- The type of a binary operation. The type of the right side is asked only where it matters. -/
def binaryType (operator : String) (left : Option TypeName) (right : Walk (Option TypeName)) :
    Walk (Option TypeName) := do
  if ["==", "!=", "<", ">", "<=", ">=", "&&", "||"].contains operator then
    return some (.resolved "boolean")
  let right ← right
  let isString := fun (t : Option TypeName) => t.any fun t => t.name == stringName
  if operator == "+" && (isString left || isString right) then
    return some (.resolved stringName)
  match left, right with
  | some l, some r =>
    if ["<<", ">>", ">>>"].contains operator then
      return (unaryPromotion l.name).map .resolved
    if ["&", "|", "^"].contains operator && unboxed l.name == "boolean" &&
        unboxed r.name == "boolean" then
      return some (.resolved "boolean")
    return (binaryPromotion l.name r.name).map .resolved
  | _, _ => return none

def endsIn (chars : List Char) (s : String) : Bool := s.toList.getLast?.any chars.contains

def elementType (array : TypeName) : Option TypeName :=
  let (base, dims) := splitArray array.name
  if 0 < dims then some { array with name := withDims base (dims - 1) } else none

/-- The text of a name or of field accesses on a name. -/
def dotted? (source : List Char) : Tree → Option String :=
  Tree.fold fun t (cs : Valued (Option String)) =>
    match t.kind with
    | .identifier => some (t.text source)
    | .fieldAccess => do
      let object ← cs.child? .object
      let field ← t.child? .field
      if field.kind != .identifier then none
      return (← object.2) ++ "." ++ field.text source
    | _ => none

namespace Walk

def dotted (t : Tree) : Walk (Option String) := do return dotted? (← setting).source t

def firstSome {α β : Type} (f : α → Walk (Option β)) : List α → Walk (Option β)
  | [] => pure none
  | a :: as => do
    match ← f a with
    | some b => pure (some b)
    | none => firstSome f as

def findField (owner name : String) : Walk (Option (String × TypeName)) :=
  ask fun index => index.findField owner name

/-- The types whose static members called `member` are imported. Imports of single members go
first. -/
def staticImports (member : String) : Walk (List String) := do
  let imports := (← setting).context.imports.filter Import.isStatic
  let single := imports.filter fun i => !i.onDemand && i.simpleName == member
  let demand := imports.filter Import.onDemand
  (single.filterMap Import.qualifier ++ demand.map Import.name).filterMapM fun owner =>
    ask fun index => index.resolveFull owner

/-- The value that a simple name means, and its type if that is known: a local variable, a field
of an enclosing type, or a field that is statically imported. -/
def value? (name : String) : Walk (Option (Option TypeName)) := do
  if let some type ← localVariable? name then return some type
  let fieldOf (owner : String) : Walk (Option (Option TypeName)) := do
    return (← findField owner name).map fun f => some f.2
  match ← firstSome fieldOf (← setting).frames with
  | some type => return some type
  | none => firstSome fieldOf (← staticImports name)

def thisType : Walk (Option TypeName) := do return (← currentType).map .resolved

def superType : Walk (Option TypeName) := do
  match ← currentType with
  | none => return none
  | some current =>
    return (← ask fun index => index.superclass current).map .resolved

def fieldType (owner field : String) : Walk (Option TypeName) := do
  if field == "length" && isArray owner then return some (.resolved "int")
  return (← findField owner field).map Prod.snd

def nameOperand (name : String) : Walk Operand := do
  if let some type ← value? name then return .value type
  if let some type ← resolveType? name then return .type type
  if (← setting).index.packageExists name then return .package name
  return .unknown name

def memberOperand (object : Operand) (field : String) : Walk Operand := do
  match object with
  | .value (some type) =>
    if type.isResolved then return .value (← fieldType type.name field)
    return .value none
  | .value none => return .value none
  | .type owner =>
    if let some type ← fieldType owner field then return .value (some type)
    if let some member ← ask fun index => index.memberType owner field then return .type member
    return .unknown (owner ++ "." ++ field)
  | .package package =>
    let candidate := package ++ "." ++ field
    let index := (← setting).index
    return if index.contains candidate then .type candidate
      else if index.packageExists candidate then .package candidate
      else .unknown candidate
  | .unknown start => return .unknown (start ++ "." ++ field)

/-- What a field access stands for. With `this` in place of the field it is the enclosing instance
of a type. -/
def accessOperand (t : Tree) (cs : Sense) : Walk Operand := do
  match cs.child? .object, t.child? .field with
  | some (object, meaning), some field =>
    if field.kind == .thisKeyword then
      match ← dotted object with
      | none => return .value none
      | some name => return .value ((← resolveType? name).map .resolved)
    memberOperand (← meaning.value.operand) (← text field)
  | _, _ => return .value none

def operandFrom (t : Tree) (cs : Sense) (type : Walk (Option TypeName)) : Walk Operand := do
  match t.kind with
  | .identifier => nameOperand (← text t)
  | .fieldAccess => accessOperand t cs
  | .thisKeyword => return .value (← thisType)
  | .superKeyword => return .value (← superType)
  | _ => return .value (← type)

/-- The type of the outer instance in front of `new`, where `type` is the type that stands behind
it. -/
def outerType (cs : Sense) (type : Tree) : Walk (Option TypeName) :=
  let outer := cs.named.find? fun c =>
    c.1.stop ≤ type.start &&
      !List.contains [.typeArguments, .annotationUse, .annotationMarker] c.1.kind
  match outer with
  | some (_, meaning) => meaning.value.type
  | none => pure none

/-- The type that `new` makes an object of. After an outer instance it is a member type of that. -/
def creationOwner (t : Tree) (cs : Sense) : Walk (Option TypeName) := do
  match t.child? .type with
  | none => return none
  | some type =>
    let written ← erased type
    if let some outer ← outerType cs type then
      if let some member ← ask fun index => index.memberType outer.name written then
        return some (.resolved member)
    return some (← typeName written)

def anonymousName (t : Tree) : Walk (Option String) :=
  match t.childOf? .classBody with
  | some body => unitName body
  | none => pure none

def createdType (t : Tree) (cs : Sense) : Walk (Option TypeName) := do
  match ← anonymousName t with
  | some name => return some (.resolved name)
  | none => creationOwner t cs

def createdDims (t : Tree) : Walk Nat := do
  let source := (← setting).source
  return t.children.foldl (fun n c =>
    match c.kind with
    | .dimensionsExpr => n + 1
    | .dimensions => n + Tree.countDims source (some c)
    | _ => n) 0

def typeIn (cs : Sense) (r : Role) : Walk (Option TypeName) :=
  match cs.child? r with
  | some (_, meaning) => meaning.value.type
  | none => pure none

def typeOfFirst (cs : Sense) : Walk (Option TypeName) :=
  match cs.named.head? with
  | some (_, meaning) => meaning.value.type
  | none => pure none

/-- The operator at `t`, applied to a left side of a given type. -/
def binaryStep (t : Tree) (cs : Sense) (left : Option TypeName) : Walk (Option TypeName) := do
  match t.child? .operator with
  | none => return none
  | some operator => binaryType (← text operator) left (typeIn cs .right)

def leftmostOf (cs : Sense) : Walk (Option TypeName) :=
  match cs.child? .left with
  | some (_, meaning) => meaning.value.leftmost
  | none => pure none

def stepsOf (t : Tree) (cs : Sense) : List (Option TypeName → Walk (Option TypeName)) :=
  (((cs.child? .left).map fun c => c.2.value.steps).getD []) ++ [binaryStep t cs]

def typeFrom (t : Tree) (cs : Sense) (call : Walk CallOutcome) : Walk (Option TypeName) := do
  match t.kind with
  | .decimalIntegerLiteral | .hexIntegerLiteral | .octalIntegerLiteral | .binaryIntegerLiteral =>
    return some (.resolved (if endsIn ['l', 'L'] (← text t) then "long" else "int"))
  | .decimalFloatingPointLiteral | .hexFloatingPointLiteral =>
    return some (.resolved (if endsIn ['f', 'F'] (← text t) then "float" else "double"))
  | .trueLiteral | .falseLiteral | .instanceofExpression => return some (.resolved "boolean")
  | .characterLiteral => return some (.resolved "char")
  | .stringLiteral => return some (.resolved stringName)
  | .nullLiteral => return some (.resolved nullName)
  | .classLiteral => return some (.resolved className)
  | .thisKeyword => thisType
  | .identifier => return (← value? (← text t)).join
  | .fieldAccess =>
    match ← accessOperand t cs with
    | .value type => return type
    | _ => return none
  | .methodInvocation => return (← call).returnType
  | .objectCreationExpression => createdType t cs
  | .arrayCreationExpression =>
    match t.child? .type with
    | none => return none
    | some type => return some (← typeNameAt type (← createdDims t))
  | .castExpression =>
    match t.child? .type with
    | none => return none
    | some type => return some (← typeNameAt type 0)
  | .arrayAccess => return (← typeIn cs .array).bind elementType
  | .parenthesizedExpression | .updateExpression => typeOfFirst cs
  | .ternaryExpression =>
    match (← typeIn cs .consequence).filter fun t => t.name != nullName with
    | some type => return some type
    | none => typeIn cs .alternative
  | .binaryExpression =>
    (stepsOf t cs).foldlM (fun left step => step left) (← leftmostOf cs)
  | .unaryExpression =>
    match ← typeIn cs .operand with
    | none => return none
    | some operand =>
      if (t.child? .operator).any (Tree.isLiteral "!") then return some (.resolved "boolean")
      return (unaryPromotion operand.name).map .resolved
  | .assignmentExpression => typeIn cs .left
  | _ => return none

end Walk

end Xref.Reference
