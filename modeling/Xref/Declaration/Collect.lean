import Xref.Declaration.LocalName
import Xref.Java.TypeInfo
import Xref.Syntax.TypeText

/-!
# The types a unit declares

Member types are called `Outer$Inner`, local classes `Owner$NSimple` and anonymous classes
`Owner$N`; the numbers count from 1 for each owner, and for local classes also for each simple name.
Signatures keep the text of their types together with its context.
-/
namespace Xref.Declaration

open Java Syntax Text

structure Found where
  types : List TypeInfo := []
  /-- The name of each declaration by its first byte, the latest first. -/
  names : List (Nat × String) := []
  localNames : LocalNames := []
  anonymous : List (String × Nat) := []
  locals : List ((String × String) × Nat) := []

abbrev Collect := StateM Found

def increment {κ : Type} [BEq κ] (key : κ) (counts : List (κ × Nat)) : Nat × List (κ × Nat) :=
  let n := ((counts.lookup key).getD 0) + 1
  (n, (key, n) :: counts)

structure Members where
  fields : List FieldInfo := []
  methods : List MethodInfo := []

namespace Members

def addField (m : Members) (f : FieldInfo) : Members := { m with fields := m.fields ++ [f] }

def addMethod (m : Members) (f : MethodInfo) : Members := { m with methods := m.methods ++ [f] }

end Members

namespace Collect

def addType (t : TypeInfo) : Collect Unit := modify fun s => { s with types := s.types ++ [t] }

def addName (start : Nat) (name : String) : Collect Unit :=
  modify fun s => { s with names := (start, name) :: s.names }

def numberAnonymous (owner : String) : Collect Nat := fun s =>
  let (n, counts) := increment owner s.anonymous
  (n, { s with anonymous := counts })

def numberLocal (owner simple : String) : Collect Nat := fun s =>
  let (n, counts) := increment (owner, simple) s.locals
  (n, { s with locals := counts })

def addLocalName (binary simple : String) : Collect Unit :=
  modify fun s =>
    { s with localNames := (s.localNames.filter fun x => x.1 != binary) ++ [(binary, simple)] }

end Collect

/-- A written type. Primitive types do not depend on the context. -/
def writtenRef (text : String) (ctx : Context) : TypeRef :=
  if isPrimitive (splitArray text).1 then .qualified text else .written text ctx

def constructorInfo (simple : String) (params : List TypeRef) (isVarargs : Bool) : MethodInfo :=
  { name := simple, params := params, returnType := none, isStatic := false,
    isVarargs := isVarargs, isConstructor := true }

def methodInfo (name : String) (params : List TypeRef) (returnType : Option TypeRef)
    (isStatic isVarargs : Bool) : MethodInfo :=
  { name := name, params := params, returnType := returnType, isStatic := isStatic,
    isVarargs := isVarargs, isConstructor := false }

def paramRefs (ps : List Parameter) (ctx : Context) : List TypeRef :=
  ps.map fun p => writtenRef p.type ctx

def hasVarargs (ps : List Parameter) : Bool := ps.any Parameter.isVarargs

/-- The type of a declaration whose dimensions may also stand after its name. -/
def declaredRef (source : List Char) (type holder : Tree) (ctx : Context) : TypeRef :=
  writtenRef
    (withDims (type.erased source) (Tree.countDims source (holder.child? .dimensions))) ctx

def methodContext (source : List Char) (t : Tree) (ctx : Context) : Context :=
  ctx.declaring (t.typeParameters source)

def methodOf? (source : List Char) (t : Tree) (ctx : Context) : Option MethodInfo :=
  (t.nameText? source).map fun name =>
    let inner := methodContext source t ctx
    let ps := t.parameters source
    methodInfo name (paramRefs ps inner)
      ((t.child? .type).map fun type => declaredRef source type t inner)
      (t.hasModifier "static") (hasVarargs ps)

def constructorOf (source : List Char) (t : Tree) (owner : String) (ctx : Context) : MethodInfo :=
  let ps := t.parameters source
  constructorInfo (simpleName owner) (paramRefs ps ctx) (hasVarargs ps)

def elementOf? (source : List Char) (t : Tree) (ctx : Context) : Option MethodInfo := do
  let name ← t.nameText? source
  let type ← t.declaredType?
  return methodInfo name [] (some (declaredRef source type t ctx)) false false

/-- The fields and the accessors of a record's components, and its canonical constructor. Members
that the body declares are not added again. -/
def addComponents (components : List Parameter) (simple : String) (ctx : Context)
    (members : Members) : Members :=
  let withAccessors := components.foldl (fun m c =>
    let m := m.addField ⟨c.name, writtenRef c.type ctx, false⟩
    if m.methods.any fun x => !x.isConstructor && x.name == c.name && x.params.isEmpty then m
    else m.addMethod (methodInfo c.name [] (some (writtenRef c.type ctx)) false false)) members
  if withAccessors.methods.any fun m =>
      m.isConstructor && m.params.length == components.length then withAccessors
  else
    withAccessors.addMethod
      (constructorInfo simple (paramRefs components ctx) (hasVarargs components))

def addEnumMethods (name : String) (members : Members) : Members :=
  members.addMethod (methodInfo "values" [] (some (.qualified (name ++ "[]"))) true false)
    |>.addMethod
      (methodInfo "valueOf" [.qualified stringName] (some (.qualified name)) true false)

def addDefaultConstructor (simple : String) (members : Members) : Members :=
  if members.methods.any MethodInfo.isConstructor then members
  else members.addMethod (constructorInfo simple [] false)

/-- The members that a type has besides those of its body. -/
def addImplicit (kind : TypeKind) (name : String) (components : List Parameter) (ctx : Context)
    (members : Members) : Members :=
  match kind with
  | .recordType => addComponents components (simpleName name) ctx members
  | .enumType => addEnumMethods name members
  | .classType => addDefaultConstructor (simpleName name) members
  | _ => members

def declaredKind : Kind → TypeKind
  | .interfaceDeclaration => .interfaceType
  | .enumDeclaration => .enumType
  | .recordDeclaration => .recordType
  | .annotationTypeDeclaration => .annotationType
  | _ => .classType

def superclassTree? (t : Tree) : Option Tree := (Tree.typesOf (t.child? .superclass)).head?

/-- The types that a class implements or an interface extends. -/
def interfaceTrees (t : Tree) : List Tree :=
  Tree.typesOf
    (if t.kind == .interfaceDeclaration then t.childOf? .extendsInterfaces
     else t.child? .interfaces)

/-- What a tree can stand for. Which of these is asked depends on the tree around it. -/
structure Collector where
  /-- As the declaration of a type of a given name, in a context. -/
  declare : String → Context → Collect Unit
  /-- As the body of a type of a given name and kind, whose context is given. -/
  members : String → TypeKind → Context → Members → Collect Members
  /-- As one member in such a body. -/
  member : String → TypeKind → Context → Members → Collect Members
  /-- As a variable declarator: the classes in its value. -/
  value : String → Context → Collect Unit
  /-- As code of an owner, with the local and anonymous classes in it. -/
  scan : String → Context → Collect Unit

namespace Collector

structure Setting where
  source : List Char
  origin : Origin
  includeLocal : Bool

variable (σ : Setting)

/-- The classes in a part of a declaration, if local classes count. -/
def scanPart (part : Option (Tree × Collector)) (owner : String) (ctx : Context) : Collect Unit :=
  match part with
  | some (_, c) => if σ.includeLocal then c.scan owner ctx else pure ()
  | none => pure ()

def membersFrom (cs : Valued Collector) (owner : String) (kind : TypeKind) (ctx : Context)
    (members : Members) : Collect Members :=
  cs.named.foldlM (fun found c => c.2.member owner kind ctx found) members

/-- Declares a type. The types in its body come before it. -/
def declareType (t : Tree) (cs : Valued Collector) (name : String) (outer : Context) :
    Collect Unit := do
  Collect.addName t.start name
  let header := outer.declaring (t.typeParameters σ.source)
  let ctx := header.inside name
  let kind := declaredKind t.kind
  let members ← match cs.child? .body with
    | some (_, body) => body.members name kind ctx {}
    | none => pure {}
  let members := addImplicit kind name (t.parameters σ.source) ctx members
  Collect.addType {
    name := name
    package := header.package
    kind := kind
    superclass := (superclassTree? t).map fun s => writtenRef (s.erased σ.source) header
    interfaces := (interfaceTrees t).map fun i => writtenRef (i.erased σ.source) header
    fields := members.fields
    methods := members.methods
    origin := σ.origin }

def declareAnonymous (body : Tree × Collector) (supertype : TypeRef) (owner : String)
    (outer : Context) : Collect Unit := do
  let number ← Collect.numberAnonymous owner
  let name := owner ++ "$" ++ toString number
  Collect.addName body.1.start name
  let members ← body.2.members name .classType (outer.inside name) {}
  Collect.addType {
    name := name
    package := outer.package
    kind := .classType
    superclass := some supertype
    interfaces := []
    fields := members.fields
    methods := members.methods
    origin := σ.origin }

def declareLocal (t : Tree) (cs : Valued Collector) (owner : String) (ctx : Context) :
    Collect Unit := do
  match t.nameText? σ.source with
  | none => pure ()
  | some simple =>
    let number ← Collect.numberLocal owner simple
    let binary := owner ++ "$" ++ toString number ++ simple
    Collect.addLocalName binary simple
    declareType σ t cs binary ctx

/-- The classes in an expression that makes an object. Its own class body comes last. -/
def scanCreation (t : Tree) (cs : Valued Collector) (owner : String) (ctx : Context) :
    Collect Unit := do
  (cs.named.filter fun c => c.1.kind != .classBody).forM fun c => c.2.scan owner ctx
  match cs.childOf? .classBody, t.child? .type with
  | some body, some type =>
    declareAnonymous σ body (writtenRef (type.erased σ.source) ctx) owner ctx
  | _, _ => pure ()

def scanFrom (t : Tree) (cs : Valued Collector) (owner : String) (ctx : Context) : Collect Unit :=
  if t.kind == .objectCreationExpression then scanCreation σ t cs owner ctx
  else if t.kind.isTypeDeclaration then declareLocal σ t cs owner ctx
  else cs.named.forM fun c => c.2.scan owner ctx

def addFields (t : Tree) (cs : Valued Collector) (owner : String) (kind : TypeKind)
    (ctx : Context) (members : Members) : Collect Members :=
  match t.declaredType? with
  | none => pure members
  | some type =>
    let isStatic :=
      kind.isInterface || t.kind == .constantDeclaration || t.hasModifier "static"
    (cs.childrenIn .declarator).foldlM (fun found (d, c) => do
      match d.nameText? σ.source with
      | none => return found
      | some name =>
        c.value owner ctx
        return found.addField ⟨name, declaredRef σ.source type d ctx, isStatic⟩) members

def addConstant (t : Tree) (cs : Valued Collector) (owner : String) (ctx : Context)
    (members : Members) : Collect Members := do
  match t.nameText? σ.source with
  | none => return members
  | some name =>
    scanPart σ (cs.child? .arguments) owner ctx
    if let some body := cs.child? .body then
      if σ.includeLocal then declareAnonymous σ body (.qualified owner) owner ctx
    return members.addField ⟨name, .qualified owner, true⟩

def memberFrom (t : Tree) (cs : Valued Collector) (owner : String) (kind : TypeKind)
    (ctx : Context) (members : Members) : Collect Members := do
  match t.kind with
  | .fieldDeclaration | .constantDeclaration => addFields σ t cs owner kind ctx members
  | .methodDeclaration =>
    match methodOf? σ.source t ctx with
    | none => return members
    | some m =>
      scanPart σ (cs.child? .body) owner (methodContext σ.source t ctx)
      return members.addMethod m
  | .constructorDeclaration =>
    scanPart σ (cs.child? .body) owner ctx
    return members.addMethod (constructorOf σ.source t owner ctx)
  | .compactConstructorDeclaration | .staticInitializer | .block =>
    if σ.includeLocal then scanFrom σ t cs owner ctx
    return members
  | .annotationTypeElementDeclaration =>
    return ((elementOf? σ.source t ctx).map members.addMethod).getD members
  | .enumConstant => addConstant σ t cs owner ctx members
  | .enumBodyDeclarations => membersFrom cs owner kind ctx members
  | _ =>
    if t.kind.isTypeDeclaration then
      if let some name := t.nameText? σ.source then
        declareType σ t cs (owner ++ "$" ++ name) ctx
    return members

def ofTree : Tree → Collector :=
  Tree.fold fun t (cs : Valued Collector) =>
    { declare := declareType σ t cs
      members := membersFrom cs
      member := memberFrom σ t cs
      value := scanPart σ (cs.child? .value)
      scan := scanFrom σ t cs }

end Collector

def importOf? (source : List Char) (t : Tree) : Option Import :=
  (t.children.find? fun c => [.identifier, .scopedIdentifier].contains c.kind).map fun name =>
    { name := name.dottedName source
      isStatic := t.children.any (Tree.isLiteral "static")
      onDemand := t.children.any fun c => c.kind == .asterisk }

def packageOf (source : List Char) (unit : Tree) : String :=
  unit.children.foldl (fun package c =>
    if c.kind == .packageDeclaration then
      match c.children.find? fun x => [.identifier, .scopedIdentifier].contains x.kind with
      | some name => name.dottedName source
      | none => package
    else package) ""

def importsOf (source : List Char) (unit : Tree) : List Import :=
  (unit.children.filter fun c => c.kind == .importDeclaration).filterMap (importOf? source)

structure Declarations where
  package : String
  imports : List Import
  types : List TypeInfo
  /-- The name of each declaration by its first byte, the latest first. An anonymous class is
  known by the first byte of its body. -/
  names : List (Nat × String)
  localNames : LocalNames

namespace Declarations

def ofUnit (σ : Collector.Setting) (unit : Tree) : Declarations :=
  let package := packageOf σ.source unit
  let imports := importsOf σ.source unit
  let ctx : Context := { package := package, imports := imports }
  let collect : Collect Unit := unit.children.forM fun c => do
    if c.kind.isTypeDeclaration then
      if let some name := c.nameText? σ.source then
        (Collector.ofTree σ c).declare (qualify package name) ctx
  let found := (collect.run {}).2
  { package := package, imports := imports, types := found.types, names := found.names,
    localNames := found.localNames }

def nameOf? (d : Declarations) (t : Tree) : Option String := d.names.lookup t.start

/-- A name with local classes called by their simple names. -/
def display (d : Declarations) (name : String) : String := d.localNames.display name

end Declarations

end Xref.Declaration
