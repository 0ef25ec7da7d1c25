import Xref.Declaration.Collect
import Xref.Reference.Construct
import Xref.Resolve.Member

/-!
# Where a walk is

A walk over a unit knows at each place what surrounds it: the lexical context and the enclosing
types. That much depends only on the place. What is declared in blocks, the references found so
far, and what is remembered to save work change along the way.
-/
namespace Xref.Reference

open Declaration Java Resolve Syntax Text

structure CallOutcome where
  /-- The names to report, the most specific first. -/
  calls : List TypeName := []
  returnType : Option TypeName := none
  deriving Repr, DecidableEq, Inhabited

/-- What is made of the bindings of calls that are remembered. -/
inductive Recall where
  /-- Each call is bound anew whenever it is asked for. -/
  | never
  /-- A remembered binding is taken as it is. -/
  | trusting
  /-- A remembered binding is taken, and the call is bound anew too. Where the two differ, a record
  made of the remembered and of the new binding says so. -/
  | checking (complaint : Tree.Position → CallOutcome → CallOutcome → Record)

/-- What the meaning of names and expressions at a place depends on. -/
structure Setting where
  /-- The index, with the types of the unit itself in it. -/
  index : TypeIndex
  source : List Char
  lines : LineMap
  declarations : Declarations
  context : Context
  frames : List String

structure Place extends Setting where
  remembering : Recall
  path : List Tree

/-- The declarations of a block. The latest come first. -/
structure Scope where
  /-- Local variables with their types, as far as these are known. -/
  vars : List (String × Option TypeName) := []
  /-- Local classes by their simple names, with their binary names. -/
  localTypes : List (String × String) := []
  deriving Repr, DecidableEq, Inhabited

def changeInnermost (change : Scope → Scope) : List Scope → List Scope
  | [] => []
  | scope :: outer => change scope :: outer

structure WalkState where
  memory : Memory := {}
  scopes : List Scope := []
  /-- The calls bound since names in scope last changed, by where they stand in the unit. -/
  calls : List (Tree.Position × CallOutcome) := []
  /-- The references found so far, each with what was declared in blocks where it was found. -/
  found : List (Record × List Scope) := []

namespace WalkState

def records (s : WalkState) : List Record := s.found.map Prod.fst

def add (r : Record) (s : WalkState) : WalkState := { s with found := s.found ++ [(r, s.scopes)] }

theorem records_add (r : Record) (s : WalkState) : (s.add r).records = s.records ++ [r] :=
  List.map_append

end WalkState

abbrev Walk := ReaderT Place (StateM WalkState)

namespace Walk

def setting : Walk Setting := do return (← read).toSetting

def path : Walk (List Tree) := do return (← read).path

def ask {α : Type} (question : TypeIndex → Query α) : Walk α := fun place s =>
  let (a, memory) := question place.index s.memory
  (a, { s with memory := memory })

def text (t : Tree) : Walk String := do return t.text (← setting).source

def erased (t : Tree) : Walk String := do return t.erased (← setting).source

def dimensions (t : Tree) : Walk Nat := do
  return Tree.countDims (← setting).source (t.child? .dimensions)

def currentType : Walk (Option String) := do return (← setting).frames.head?

def unitName (t : Tree) : Walk (Option String) := do return (← setting).declarations.nameOf? t

/-- Forgets the calls bound so far, because names in scope change. -/
def forgetCalls : Walk Unit := modify fun s => { s with calls := [] }

/-- Changes the innermost scope. Outside of all scopes nothing is declared. -/
def declare (change : Scope → Scope) : Walk Unit :=
  modify fun s => { s with calls := [], scopes := changeInnermost change s.scopes }

def bindVariable (name : String) (type : Option TypeName) : Walk Unit :=
  declare fun scope => { scope with vars := (name, type) :: scope.vars }

def bindType (simple binary : String) : Walk Unit :=
  declare fun scope => { scope with localTypes := (simple, binary) :: scope.localTypes }

def inScope (body : Walk Unit) : Walk Unit := do
  modify fun s => { s with scopes := {} :: s.scopes }
  body
  modify fun s => { s with scopes := s.scopes.drop 1, calls := [] }

def insideType (name : String) (vars : List TypeVariable) (body : Walk Unit) : Walk Unit := do
  forgetCalls
  withReader (fun p =>
    { p with context := (p.context.inside name).declaring vars, frames := name :: p.frames }) body
  forgetCalls

def withVariables {α : Type} (vars : List TypeVariable) (body : Walk α) : Walk α :=
  withReader (fun p => { p with context := p.context.declaring vars }) body

def inside {α : Type} (t : Tree) (body : Walk α) : Walk α :=
  withReader (fun p => { p with path := t :: p.path }) body

def localType? (simple : String) : Walk (Option String) := do
  return (← get).scopes.findSome? fun scope => scope.localTypes.lookup simple

def localVariable? (name : String) : Walk (Option (Option TypeName)) := do
  return (← get).scopes.findSome? fun scope => scope.vars.lookup name

/-- The binding of the call at `p`, which `bindCall` works out unless it is remembered. -/
def rememberedCall (p : Tree.Position) (bindCall : Walk CallOutcome) : Walk CallOutcome :=
  fun place s =>
    match place.remembering, s.calls.lookup p with
    | .trusting, some outcome => (outcome, s)
    | .checking complaint, some outcome =>
      let (anew, s) := bindCall place s
      if anew = outcome then (outcome, s)
      else (outcome, s.add (complaint p outcome anew))
    | _, _ =>
      let (outcome, s) := bindCall place s
      (outcome, { s with calls := (p, outcome) :: s.calls })

/-- Binds a written type. A local class in scope goes first. -/
def resolveType? (text : String) : Walk (Option String) := do
  let (base, dims) := splitArray text
  let leading := ((cutFirst '.' base).map Prod.fst).getD base
  match ← localType? leading with
  | some binary =>
    match cutFirst '.' base with
    | none => return some (withDims binary dims)
    | some (_, rest) =>
      let found ← ask fun index => index.resolveFull (binary ++ "." ++ rest)
      return found.map fun name => withDims name dims
  | none =>
    let ctx := (← setting).context
    ask fun index => index.resolve text ctx

def recover (text : String) : Walk TypeName := do
  recoverName text (← setting).context.imports resolveType?

def typeName (text : String) : Walk TypeName := do
  match ← resolveType? text with
  | some name => return .resolved name
  | none =>
    let (base, dims) := splitArray text
    let found ← recover base
    return { found with name := withDims found.name dims }

def typeNameAt (t : Tree) (dims : Nat) : Walk TypeName := do
  typeName (withDims (← erased t) dims)

def addRecord (r : Record) : Walk Unit := do
  if r.name.isEmpty then return
  let d := (← setting).declarations
  modify fun s => s.add { r with name := d.display r.name }

def emitWith (construct : Construct) (name : TypeName) (span : Span)
    (values : Option ElementValues) : Walk Unit := do
  addRecord {
    name := name.name
    status := name.status
    location := construct.location
    span := span
    snippet := (← setting).lines.snippet span.line
    values := values }

def emit (construct : Construct) (name : TypeName) (span : Span) : Walk Unit :=
  emitWith construct name span none

def spanOf (t : Tree) : Walk Span := do return (← setting).lines.span t.start t.stop

def emitAt (construct : Construct) (name : TypeName) (t : Tree) : Walk Unit := do
  emit construct name (← spanOf t)

end Walk

end Xref.Reference
