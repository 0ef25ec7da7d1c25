import Xref.Reference.Call
import Xref.Reference.Element

/-!
# The references in a tree

Each form of syntax says which references it makes, in which order its parts follow, and what it
declares for them.
-/
namespace Xref.Reference

open Declaration Java Resolve Syntax Text

namespace Walk

def visitAll (t : Tree) (cs : Sense) : Walk Unit :=
  inside t (cs.named.forM fun c => c.2.value.visit)

def visitIn (t : Tree) (cs : Sense) (r : Role) : Walk Unit :=
  match cs.child? r with
  | some (_, c) => inside t c.value.visit
  | none => pure ()

def visitInside (t : Tree) (part : Option (Tree × Decorated Meaning)) : Walk Unit :=
  match part with
  | some (c, meaning) => inside t (visitAll c meaning.parts)
  | none => pure ()

def visitModifiers (t : Tree) (cs : Sense) : Walk Unit :=
  visitInside t (cs.childOf? .modifiers)

def fullName (name : String) : Walk (Option String) := ask fun index => index.resolveFull name

/-- An imported name that is not bound, as far as it is qualified by itself. -/
def writtenImport (name : String) : TypeName := recoverName (m := Id) name [] fun _ => none

def importedMembers (i : Import) : Walk TypeName := do
  match ← fullName i.name with
  | some owner => return .resolved (owner ++ ".*")
  | none =>
    let found := writtenImport i.name
    return { found with name := found.name ++ ".*" }

def importedOwner (i : Import) : Walk (Option String) :=
  match i.qualifier with
  | some qualifier => fullName qualifier
  | none => pure none

def importedMember (i : Import) : Walk TypeName := do
  match ← importedOwner i with
  | some owner => return .resolved (owner ++ "." ++ i.simpleName)
  | none => return writtenImport i.name

def importedType (i : Import) : Walk TypeName := do
  match ← fullName i.name with
  | some name => return .resolved name
  | none => return writtenImport i.name

def importName (i : Import) : Walk TypeName := do
  if i.isStatic then
    if i.onDemand then importedMembers i else importedMember i
  else if i.onDemand then
    if (← setting).index.packageExists i.name then return .resolved i.displayName
    importedMembers i
  else importedType i

def visitImport (t : Tree) : Walk Unit := do
  let name := t.children.find? fun c => [.identifier, .scopedIdentifier].contains c.kind
  match importOf? (← setting).source t, name with
  | some i, some tree => emitAt .importDeclaration (← importName i) tree
  | _, _ => pure ()

/-- Whether a type declared at the place is local: it is not a member and not at the top. -/
def isLocalPlace : Walk Bool := do
  return (← path).head?.any fun parent =>
    !List.contains
      [.program, .classBody, .interfaceBody, .enumBodyDeclarations, .annotationTypeBody]
      parent.kind

def emitSupertypes (kind : TypeKind) (isExtends : Bool) (clause : Option Tree) : Walk Unit :=
  (Tree.typesOf clause).forM fun type => do
    emitAt (.ofSupertype kind isExtends) (← typeNameAt type 0) type.nameOfType

def visitComponents (t : Tree) (cs : Sense) : Walk Unit := do
  let source := (← setting).source
  match cs.child? .parameters with
  | none => pure ()
  | some (list, meaning) =>
    meaning.parts.forM fun (p, c) => do
      match Parameter.ofTree? source p with
      | none => pure ()
      | some component =>
        emitAt .variableDeclaration (← typeName component.type) p
        inside t (inside list (visitModifiers p c.parts))

def bindLocalType (name : String) : Walk Unit := do
  if ← isLocalPlace then bindType (simpleName name) name

def visitTypeDeclaration (t : Tree) (cs : Sense) (kind : TypeKind) : Walk Unit := do
  match ← unitName t with
  | none => visitAll t cs
  | some name =>
    bindLocalType name
    emitAt .typeDeclaration (.resolved name) t
    visitModifiers t cs
    let vars := t.typeParameters (← setting).source
    withVariables vars do
      emitSupertypes kind true (t.child? .superclass)
      emitSupertypes kind true (t.childOf? .extendsInterfaces)
      emitSupertypes kind false (t.child? .interfaces)
    insideType name vars do
      if kind == .recordType then visitComponents t cs
      visitInside t (cs.child? .body)

def visitAnonymousBody (t : Tree) (body : Tree × Decorated Meaning) : Walk Unit := do
  match ← unitName body.1 with
  | some name => insideType name [] (visitInside t (some body))
  | none => visitInside t (some body)

def visitEnumConstant (t : Tree) (cs : Sense) : Walk Unit := do
  visitModifiers t cs
  visitInside t (cs.child? .arguments)
  if let some body := cs.child? .body then visitAnonymousBody t body

/-- The name that a declaration is reported with. It is recovered if one of its parameter types
is not bound. -/
def declaredSignature (owner : String) (method : Option String) (params : List TypeName) :
    TypeName :=
  let joined := "(" ++ joinWith "," (params.map TypeName.name) ++ ")"
  let name := match method with
    | some m => owner ++ "." ++ m ++ joined
    | none => owner ++ joined
  if params.all TypeName.isResolved then .resolved name else .recovered name

def emitThrows (t : Tree) : Walk Unit :=
  match t.childOf? .throwsClause with
  | none => pure ()
  | some clause =>
    (clause.children.filter fun c => c.kind.isType).forM fun type => do
      emitAt .throwsClause (← typeNameAt type 0) type.nameOfType

def typedParameters (t : Tree) : Walk (List (Parameter × TypeName)) := do
  (t.parameters (← setting).source).mapM fun p => do return (p, ← typeName p.type)

/-- The references to the types of parameters, each before the annotations of its parameter. -/
def emitParameters (t : Tree) (cs : Sense) (params : List (Parameter × TypeName)) (span : Span) :
    Walk Unit := do
  let source := (← setting).source
  match cs.child? .parameters with
  | none => pure ()
  | some (list, meaning) =>
    let trees := meaning.parts.filter fun c => (Parameter.ofTree? source c.1).isSome
    (trees.zip params).forM fun ((p, c), (_, type)) => do
      emit .methodParameter type span
      inside t (inside list (visitModifiers p c.parts))

def emitReturnType (t : Tree) (span : Span) : Walk Unit := do
  if let some type := t.child? .type then
    emit .returnType (← typeNameAt type (← dimensions t)) span

def withParameters (params : List (Parameter × TypeName)) (body : Walk Unit) : Walk Unit :=
  inScope do
    params.forM fun (p, type) => bindVariable p.name (some type)
    body

def visitMethod (t : Tree) (cs : Sense) : Walk Unit := do
  match t.child? .name with
  | none => visitAll t cs
  | some name =>
    let owner := (← currentType).getD ""
    withVariables (t.typeParameters (← setting).source) do
      let params ← typedParameters t
      let signature := declaredSignature owner (some (← text name)) (params.map Prod.snd)
      emitAt .methodDeclaration signature name
      visitModifiers t cs
      let span ← spanOf t
      emitReturnType t span
      emitParameters t cs params span
      emitThrows t
      visitIn t cs .value
      if (cs.child? .body).isSome then withParameters params (visitIn t cs .body)

/-- The parameters of a constructor with their types. A compact one has the components of its
record. -/
def constructorParameters (t : Tree) (isCompact : Bool) : Walk (List (Parameter × TypeName)) := do
  match isCompact, (← path)[1]? with
  | true, some record => typedParameters record
  | true, none => return []
  | false, _ => typedParameters t

def visitConstructor (t : Tree) (cs : Sense) (isCompact : Bool) : Walk Unit := do
  match t.child? .name with
  | none => visitAll t cs
  | some name =>
    let owner := (← currentType).getD ""
    withVariables (t.typeParameters (← setting).source) do
      let params ← constructorParameters t isCompact
      emitAt .constructorDeclaration (declaredSignature owner none (params.map Prod.snd)) name
      visitModifiers t cs
      let span ← spanOf t
      if !isCompact then emitParameters t cs params span
      emitThrows t
      if (cs.child? .body).isSome then
        withParameters params (visitInside t (cs.child? .body))

def isVar (type : Tree) : Walk Bool := do
  return type.kind == .typeIdentifier && (← text type) == "var"

/-- The type of a variable, as far as it is reported. One that was left open has to be bound. -/
def reportable (type : Tree) (name : Option TypeName) : Walk (Option TypeName) := do
  let isOpen ← isVar type
  return name.filter fun n => !isOpen || n.isResolved

def emitVariable (type : Tree) (name : Option TypeName) (span : Span) : Walk Unit := do
  if let some n ← reportable type name then emit .variableDeclaration n span

/-- The type of a variable: the written one, or else that of its initializer. -/
def variableType (type declarator : Tree) (cs : Sense) : Walk (Option TypeName) := do
  if ← isVar type then
    return (← typeIn cs .value).filter fun t => t.name != nullName
  return some (← typeNameAt type (← dimensions declarator))

/-- The static member that an initializer reads, if it is nothing but a name with dots. -/
def staticMember? (value : Tree) : Walk (Option TypeName) := do
  if value.kind != .fieldAccess then return none
  match ← dotted value with
  | none => return none
  | some name =>
    match cutLast '.' name with
    | none => return none
    | some (qualifier, member) =>
      let leading := ((cutFirst '.' qualifier).map Prod.fst).getD qualifier
      if (← value? leading).isSome then return none
      match ← resolveType? qualifier with
      | some owner =>
        let isKnown := (← findField owner member).isSome
        return some ⟨owner ++ "." ++ member, if isKnown then .resolved else .recovered⟩
      | none => return some (← recover name)

def emitInitializer (declarator : Tree) (span : Span) : Walk Unit := do
  match declarator.child? .value with
  | none => pure ()
  | some value =>
    if let some member ← staticMember? value then emit .variableInitializer member span

/-- Finds the types of variables and reports those that were not reported before. -/
def emitTypes (type : Tree) (span : Span) :
    List String → Sense → Walk (List (Option TypeName))
  | _, [] => pure []
  | reported, (d, meaning) :: rest => do
    let known ← variableType type d meaning.parts
    match (← reportable type known).filter fun n => !reported.contains n.name with
    | some n =>
      emit .variableDeclaration n span
      return known :: (← emitTypes type span (n.name :: reported) rest)
    | none => return known :: (← emitTypes type span reported rest)

/-- The references in a declaration of variables. A type is reported once, however many variables
have it. -/
def visitVariables (t : Tree) (cs : Sense) (isLocal : Bool) : Walk Unit := do
  match t.declaredType? with
  | none => visitAll t cs
  | some type =>
    let span ← spanOf t
    let declarators := cs.childrenIn .declarator
    let types ← emitTypes type span [] declarators
    declarators.forM fun (d, _) => emitInitializer d span
    if isLocal then
      (declarators.zip types).forM fun ((d, _), known) => do
        if let some name := d.child? .name then bindVariable (← text name) known
    visitAll t cs

/-- The type of the variable of a loop over a value: the written one, or else that of the elements
of an array. -/
def loopType (t type : Tree) (cs : Sense) : Walk (Option TypeName) := do
  if ← isVar type then
    return ((← typeIn cs .value).filter TypeName.isResolved).bind elementType
  return some (← typeNameAt type (← dimensions t))

/-- Reports the variable of a loop over a value. Gives its name and its type. -/
def loopVariable (t : Tree) (cs : Sense) : Walk (Option (String × Option TypeName)) := do
  match t.child? .type, t.child? .name with
  | some type, some name =>
    let variableType ← loopType t type cs
    let lines := (← setting).lines
    emitVariable type variableType (lines.span type.start (max name.stop type.stop))
    return some (← text name, variableType)
  | _, _ => return none

def visitEnhancedFor (t : Tree) (cs : Sense) : Walk Unit := do
  let found ← loopVariable t cs
  visitModifiers t cs
  visitIn t cs .value
  inScope do
    if let some (name, type) := found then bindVariable name type
    visitIn t cs .body

/-- Reports the types of the parameter of a `catch` clause and declares it. Its type is known if
there is one only. -/
def visitCatchParameter (t : Tree) (param : Tree × Decorated Meaning) : Walk Unit := do
  let span ← spanOf param.1
  let types := ((param.1.childOf? .catchType).map Tree.children).getD [] |>.filter fun c =>
    c.kind.isType
  let names ← types.mapM fun type => do
    let name ← typeNameAt type 0
    emit .variableDeclaration name span
    return name
  if let some name := param.1.child? .name then
    bindVariable (← text name) (if names.length == 1 then names.head? else none)
  inside t (visitModifiers param.1 param.2.parts)

def visitCatch (t : Tree) (cs : Sense) : Walk Unit :=
  inScope do
    if let some param := cs.childOf? .catchFormalParameter then visitCatchParameter t param
    visitIn t cs .body

def bindResource (t : Tree) (cs : Sense) : Walk Unit := do
  match t.child? .type, t.child? .name with
  | some type, some name =>
    let span ← spanOf t
    let known ← variableType type t cs
    emitVariable type known span
    emitInitializer t span
    bindVariable (← text name) known
  | _, _ => pure ()

def visitResource (t : Tree) (cs : Sense) : Walk Unit := do
  bindResource t cs
  visitAll t cs

def emitCalls (construct : Construct) (names : List TypeName) (t : Tree) : Walk Unit :=
  names.forM fun name => emitAt construct name t

def linkFrom (t : Tree) (cs : Sense) (call : Walk CallOutcome) : Link where
  tree := t
  call := call
  parts := (cs.named.filter fun c =>
    !(c.1.role == some .object && c.1.kind == .methodInvocation)).forM fun c => c.2.value.visit

def linksFrom (t : Tree) (cs : Sense) (call : Walk CallOutcome) : List Link :=
  if t.kind == .methodInvocation then
    linkFrom t cs call :: ((cs.child? .object).map fun c => c.2.value.links).getD []
  else []

/-- The references in the parts of the calls of a chain, those of the first call first. -/
def visitLinks : List Link → Walk Unit
  | [] => pure ()
  | link :: rest => inside link.tree do
    visitLinks rest
    link.parts

/-- The references in a chain of calls. Calls are bound from the first to the last, so that the
type of each receiver is known, and reported from the last to the first. -/
def visitChain (links : List Link) : Walk Unit := do
  links.reverse.forM fun link => discard link.call
  links.forM fun link => do
    if let some name := link.tree.child? .name then
      let outcome ← link.call
      emitCalls .methodCall outcome.calls name
  visitLinks links

def visitCreation (t : Tree) (cs : Sense) : Walk Unit := do
  if let some type := t.child? .type then
    emitCalls .constructorCall (← creationCalls t cs) type.nameOfType
  cs.named.forM fun c =>
    if c.1.kind == .classBody then visitAnonymousBody t c
    else inside t c.2.value.visit

def visitExplicitConstructor (t : Tree) (cs : Sense) : Walk Unit := do
  if let some keyword := t.child? .constructor then
    emitCalls .explicitConstructorCall (← explicitConstructorCalls t cs) keyword
  visitAll t cs

def visitUse (t : Tree) (cs : Sense) : Walk Unit := do
  if let some name := t.child? .name then
    let found ← typeName (name.dottedName (← setting).source)
    let values ← elementsFrom cs
    emitWith .annotationUse found (← spanOf name) (some values)
  visitInside t (cs.child? .arguments)

def bindLambdaParameters (t : Tree) : Walk Unit := do
  match t.child? .parameters with
  | none => pure ()
  | some params =>
    match params.kind with
    | .identifier => bindVariable (← text params) none
    | .formalParameters =>
      (t.parameters (← setting).source).forM fun p => do
        bindVariable p.name (some (← typeName p.type))
    | _ =>
      (params.children.filter fun c => c.kind == .identifier).forM fun c => do
        bindVariable (← text c) none

def visitLambda (t : Tree) (cs : Sense) : Walk Unit :=
  inScope do
    bindLambdaParameters t
    visitIn t cs .body

def bindPattern (t : Tree) : Walk Unit := do
  match t.child? .name, t.child? .right with
  | some name, some right => bindVariable (← text name) (some (← typeNameAt right 0))
  | _, _ => pure ()

def visitInstanceTest (t : Tree) (cs : Sense) : Walk Unit := do
  bindPattern t
  visitAll t cs

def operandsFrom (t : Tree) (cs : Sense) : List (Walk Unit) :=
  let left := ((cs.child? .left).map fun c => c.2.value.operands).getD []
  let right := ((cs.child? .right).map fun c => c.2.value.visit).toList
  (left ++ right).map (inside t)

def visitFrom (t : Tree) (cs : Sense) (links : List Link) : Walk Unit :=
  match Form.ofKind t.kind with
  | .importDeclaration => visitImport t
  | .classDeclaration => visitTypeDeclaration t cs .classType
  | .interfaceDeclaration => visitTypeDeclaration t cs .interfaceType
  | .enumDeclaration => visitTypeDeclaration t cs .enumType
  | .recordDeclaration => visitTypeDeclaration t cs .recordType
  | .annotationTypeDeclaration => visitTypeDeclaration t cs .annotationType
  | .enumConstant => visitEnumConstant t cs
  | .methodDeclaration | .elementDeclaration => visitMethod t cs
  | .constructorDeclaration => visitConstructor t cs false
  | .compactConstructorDeclaration => visitConstructor t cs true
  | .fieldDeclaration | .constantDeclaration => visitVariables t cs false
  | .localVariableDeclaration => visitVariables t cs true
  | .enhancedFor => visitEnhancedFor t cs
  | .catchClause => visitCatch t cs
  | .tryWithResources | .scope => inScope (visitAll t cs)
  | .resource => visitResource t cs
  | .methodInvocation => visitChain links
  | .objectCreation => visitCreation t cs
  | .explicitConstructorInvocation => visitExplicitConstructor t cs
  | .annotationUse | .annotationMarker => visitUse t cs
  | .lambda => visitLambda t cs
  | .instanceTest => visitInstanceTest t cs
  | .packageDeclaration => visitAll t cs
  | .other =>
    if t.kind == .binaryExpression then (operandsFrom t cs).forM id else visitAll t cs

/-- The meaning of the tree `t` at `p`, from the meanings of its children. -/
def meaningFrom (p : Tree.Position) (t : Tree) (cs : Sense) : Meaning :=
  let call := rememberedCall p (bindInvocation t cs)
  let type := typeFrom t cs call
  let links := linksFrom t cs call
  let visit := visitFrom t cs links
  let isChain := t.kind == .binaryExpression
  { type := type
    leftmost := if isChain then leftmostOf cs else type
    steps := if isChain then stepsOf t cs else []
    operand := operandFrom t cs type
    element := elementFrom t cs type
    links := links
    visit := visit
    operands := if isChain then operandsFrom t cs else [visit] }

end Walk

def meaning : Tree.Position → Tree → Decorated Meaning := Tree.decorate Walk.meaningFrom

end Xref.Reference
