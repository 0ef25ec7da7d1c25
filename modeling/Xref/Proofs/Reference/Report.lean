import Xref.Proofs.Reference.Standpoint
import Xref.Proofs.Reference.Visit

/-!
# What a walk reports

A walk reports declarations of types and their supertypes, declarations of methods, calls, and new
objects. Each `Event` is one such report. `Runs` says that a walk made these reports one after the
other and no others, and that the resolver would give the same names again at any later time.
-/
open List

namespace Xref.Reference

open Declaration Java Resolve Syntax Text Walk

inductive Report where
  | type (name : String)
  /-- One of its supertypes, as it is written. -/
  | supertype (kind : TypeKind) (isExtends : Bool) (written : Tree)
  | method (name : Tree)
  /-- A constructor. The tree that its parameters stand in is its record if it is compact. -/
  | constructor (holder : Option Tree) (name : Tree)
  | call (cs : Sense) (name : Tree)
  | creation (cs : Sense) (written : Tree)
  | explicitCall (cs : Sense) (keyword : Tree)

namespace Report

def construct : Report → Construct
  | type _ => .typeDeclaration
  | supertype kind isExtends _ => .ofSupertype kind isExtends
  | method _ => .methodDeclaration
  | constructor _ _ => .constructorDeclaration
  | call _ _ => .methodCall
  | creation _ _ => .constructorCall
  | explicitCall _ _ => .explicitConstructorCall

def key (t : Tree) : Report → Tree
  | type _ => t
  | supertype _ _ written => written.nameOfType
  | method name | constructor _ name | call _ name => name
  | creation _ written => written.nameOfType
  | explicitCall _ keyword => keyword

def vars (source : List Char) (t : Tree) : Report → List TypeVariable
  | supertype _ _ _ | method _ | constructor _ _ => t.typeParameters source
  | type _ | call _ _ | creation _ _ | explicitCall _ _ => []

def names (t : Tree) : Report → Walk (List TypeName)
  | type name => pure [.resolved name]
  | supertype _ _ written => do return [← typeNameAt written 0]
  | method name => do
    let owner := (← currentType).getD ""
    let params ← typedParameters t
    return [declaredSignature owner (some (← text name)) (params.map Prod.snd)]
  | constructor holder _ => do
    let owner := (← currentType).getD ""
    let params ← holder.elim (pure []) typedParameters
    return [declaredSignature owner none (params.map Prod.snd)]
  | call cs _ => do return (← bindInvocation t cs).calls
  | creation cs _ => creationCalls t cs
  | explicitCall cs _ => explicitConstructorCalls t cs

def isMain : Report → Bool
  | supertype _ _ _ => false
  | _ => true

end Report

/-- The supertypes of a declaration after `extends`, or the others. -/
def supertypeTrees (t : Tree) : Bool → List Tree
  | true => Tree.typesOf (t.child? .superclass) ++ Tree.typesOf (t.childOf? .extendsInterfaces)
  | false => Tree.typesOf (t.child? .interfaces)

structure SenseOf (source : List Char) (t : Tree) (cs : Sense) : Prop where
  parts : ∃ p, cs = (Tree.decorate meaningFrom p t).parts
  sound : ∃ binding κ ctx, SoundParts binding source κ ctx cs
  plain : t.kind.holdsCallables = false → PlainParts cs

/-- Whether a report is made of the tree at a spot. -/
def Report.Describes (d : Declarations) (source : List Char) (s : Spot) : Report → Prop
  | .type name => s.tree.kind.isTypeDeclaration ∧ d.nameOf? s.tree = some name
  | .supertype kind isExtends written =>
    s.tree.kind.isTypeDeclaration ∧ (d.nameOf? s.tree).isSome ∧
      kind = declaredKind s.tree.kind ∧ written ∈ supertypeTrees s.tree isExtends
  | .method name =>
    (s.tree.kind = .methodDeclaration ∨ s.tree.kind = .annotationTypeElementDeclaration) ∧
      s.tree.child? .name = some name
  | .constructor holder name =>
    (s.tree.kind = .constructorDeclaration ∧ holder = some s.tree ∨
        s.tree.kind = .compactConstructorDeclaration ∧ holder = s.view.path[1]?) ∧
      s.tree.child? .name = some name
  | .call cs name =>
    s.tree.kind = .methodInvocation ∧ s.tree.child? .name = some name ∧ SenseOf source s.tree cs
  | .creation cs written =>
    s.tree.kind = .objectCreationExpression ∧ s.tree.child? .type = some written ∧
      SenseOf source s.tree cs
  | .explicitCall cs keyword =>
    s.tree.kind = .explicitConstructorInvocation ∧ s.tree.child? .constructor = some keyword ∧
      SenseOf source s.tree cs

structure Event where
  report : Report
  spot : Spot
  scopes : List Scope
  names : List TypeName

def recordAt (st : Setting) (construct : Construct) (key : Tree) (name : TypeName) : Record :=
  let span := st.lines.span key.start key.stop
  { name := st.declarations.display name.name
    status := name.status
    location := construct.location
    span := span
    snippet := st.lines.snippet span.line }

/-- The records of names at the tree `key`. Empty names are left out. -/
def recordsAt (st : Setting) (construct : Construct) (key : Tree) (names : List TypeName) :
    List Record :=
  (names.filter fun name => !name.name.isEmpty).map (recordAt st construct key)

namespace Event

variable (st : Setting)

def setting (e : Event) : Setting :=
  (e.spot.view.declaring (e.report.vars st.source e.spot.tree)).setting st

def records (e : Event) : List Record :=
  recordsAt st e.report.construct (e.report.key e.spot.tree) e.names

/-- Its records, each with what was declared in blocks where it was made. -/
def finds (e : Event) : List (Record × List Scope) := (e.records st).map (·, e.scopes)

def isMain (e : Event) : Bool := e.report.isMain && !e.spot.view.isApart

/-- The event belongs to its spot, and the names are what the resolver finds if it remembers at
least `m`. -/
structure Holds (m : Memory) (e : Event) : Prop where
  describes : e.report.Describes st.declarations st.source e.spot
  settled : (e.report.names e.spot.tree).Settled (e.setting st) e.scopes m e.names

lemma Holds.grow {st : Setting} {m m' : Memory} {e : Event} (h : e.Holds st m)
    (hm : m.Within m') : e.Holds st m' where
  describes := h.describes
  settled scopes' m'' hnames hidle hwithin := h.settled scopes' m'' hnames hidle (hm.trans hwithin)

end Event

lemma filter_flatMap_of {α β : Type} {f : α → List β} {p : β → Bool} {q : α → Bool} {l : List α}
    (h : ∀ a ∈ l, ∀ b ∈ f a, p b = q a) : (l.flatMap f).filter p = (l.filter q).flatMap f := by
  induction l with
  | nil => rfl
  | cons a l ih =>
    have hrest := ih fun a ha => h a (mem_cons_of_mem _ ha)
    have hfirst : (f a).filter p = if q a then f a else [] := by
      split
      case isTrue hq => exact filter_eq_self.mpr fun b hb => (h a mem_cons_self b hb).trans hq
      case isFalse hq =>
        exact filter_eq_nil_iff.mpr fun b hb => by simp [h a mem_cons_self b hb, hq]
    rw [flatMap_cons, filter_append, hrest, hfirst, filter_cons]
    split <;> simp

def Location.isReported : Location → Bool
  | .type | .method | .methodCall | .constructorCall | .inheritance | .implementsType => true
  | _ => false

lemma Report.isReported_location (r : Report) : r.construct.location.isReported := by
  cases r with
  | supertype kind isExtends written =>
    simp only [Report.construct, Construct.ofSupertype]
    split <;> rfl
  | _ => rfl

def reported (records : List Record) : List Record :=
  records.filter fun r => r.location.isReported

def WalkState.reports (s : WalkState) : List (Record × List Scope) :=
  s.found.filter fun f => f.1.location.isReported

lemma exists_event_of_mem {st : Setting} {events : List Event} {f : Record × List Scope}
    (h : f ∈ events.flatMap (Event.finds st)) :
    ∃ e ∈ events, e.scopes = f.2 ∧
      ∃ name ∈ e.names, f.1 = recordAt st e.report.construct (e.report.key e.spot.tree) name := by
  obtain ⟨e, he, hf⟩ := mem_flatMap.mp h
  obtain ⟨r, hr, rfl⟩ := mem_map.mp hf
  obtain ⟨name, hname, rfl⟩ := mem_map.mp hr
  exact ⟨e, he, rfl, name, (mem_filter.mp hname).1, rfl⟩

lemma reported_of_reports {st : Setting} {s : WalkState} {events : List Event}
    (h : s.reports = events.flatMap (Event.finds st)) :
    reported s.records = events.flatMap (Event.records st) := by
  have hreports : reported s.records = s.reports.map Prod.fst := filter_map
  rw [hreports, h, map_flatMap]
  refine congrArg (flatMap · events) (funext fun e => ?_)
  rw [Event.finds, map_map]
  exact map_id _

/-- From the state `s` to the state `s'` the walk made the reports `events` and no others. -/
structure Runs (st : Setting) (s s' : WalkState) (events : List Event) : Prop where
  reports : s'.reports = s.reports ++ events.flatMap (Event.finds st)
  grows : s.memory.Grows s'.memory
  reaches : s.memory.Reaches st.index s'.memory
  holds : ∀ e ∈ events, e.Holds st s'.memory

namespace Runs

variable {st : Setting} {s s' s'' : WalkState} {events events' : List Event}

lemma refl (s : WalkState) : Runs st s s [] where
  reports := by simp
  grows := .refl s.memory
  reaches := .refl s.memory
  holds := by simp

lemma append (h : Runs st s s' events) (h' : Runs st s' s'' events') :
    Runs st s s'' (events ++ events') where
  reports := by rw [h'.reports, h.reports, flatMap_append, append_assoc]
  grows := h.grows.trans h'.grows
  reaches := h.reaches.trans h'.reaches
  holds := forall_mem_append.mpr ⟨fun e he => (h.holds e he).grow h'.grows.toWithin, h'.holds⟩

lemma congr {t t' : WalkState} (h : Runs st s s' events) (hm : t.memory = s.memory)
    (hr : t.found = s.found) (hm' : t'.memory = s'.memory) (hr' : t'.found = s'.found) :
    Runs st t t' events where
  reports := by rw [WalkState.reports, WalkState.reports, hr, hr']; exact h.reports
  grows := by rw [hm, hm']; exact h.grows
  reaches := by rw [hm, hm']; exact h.reaches
  holds := by rw [hm']; exact h.holds

end Runs

variable {α : Type} {x : Walk α}

/-- The walk finds out something without a report or a declaration. -/
def Evaluates {α : Type} (x : Walk α) : Prop :=
  ∃ binding κ ctx, Evaluation binding κ ctx x

lemma Evaluation.evaluates {binding : Bindings} {κ : Contexts} {ctx : Context}
    (h : Evaluation binding κ ctx x) : Evaluates x :=
  ⟨binding, κ, ctx, h⟩

lemma Evaluates.always (h : ∀ binding κ ctx, Evaluation binding κ ctx x) : Evaluates x :=
  ⟨fun _ => pure {}, fun _ => {}, {}, h _ _ _⟩

def Walk.reporting {α : Type} (construct : Construct) (key : Tree) (x : Walk α)
    (names : α → List TypeName) : Walk α := do
  let a ← x
  emitCalls construct (names a) key
  return a

lemma walk_map_apply {β : Type} (x : Walk α) (f : α → β) (place : Place) (s : WalkState) :
    (x >>= fun a => pure (f a)) place s = (f (x place s).1, (x place s).2) := rfl

/-- The references of names at the tree `key`, found where `s` is the state. -/
def WalkState.findsAt (s : WalkState) (st : Setting) (construct : Construct) (key : Tree)
    (names : List TypeName) : List (Record × List Scope) :=
  (recordsAt st construct key names).map (·, s.scopes)

lemma emitAt_apply (construct : Construct) (name : TypeName) (key : Tree) (place : Place)
    (s : WalkState) :
    emitAt construct name key place s =
      ((), { s with found := s.found ++ s.findsAt place.toSetting construct key [name] }) := by
  change addRecord { recordAt place.toSetting construct key name with name := name.name }
    place s = _
  by_cases h : name.name.isEmpty
  · simp only [addRecord, h, WalkState.findsAt, recordsAt, List.filter, if_true]
    simp
    rfl
  · simp only [addRecord, h, WalkState.findsAt, recordsAt, List.filter]
    rfl

lemma emitCalls_apply (construct : Construct) (names : List TypeName) (key : Tree)
    (place : Place) (s : WalkState) :
    emitCalls construct names key place s =
      ((), { s with found := s.found ++ s.findsAt place.toSetting construct key names }) := by
  induction names generalizing s with
  | nil =>
    change ((), s) = _
    simp [WalkState.findsAt, recordsAt]
  | cons name names ih =>
    have hcons : s.findsAt place.toSetting construct key (name :: names) =
        s.findsAt place.toSetting construct key [name] ++
          s.findsAt place.toSetting construct key names := by
      simp only [WalkState.findsAt, recordsAt]
      rw [← singleton_append, filter_append, map_append, map_append]
    change emitCalls construct names key place (emitAt construct name key place s).2 = _
    rw [emitAt_apply, ih, hcons, ← append_assoc]
    rfl

lemma reporting_apply (construct : Construct) (key : Tree) (x : Walk α)
    (names : α → List TypeName) (place : Place) (s : WalkState) :
    (reporting construct key x names place s).2 = { (x place s).2 with
        found := (x place s).2.found ++
          (x place s).2.findsAt place.toSetting construct key (names (x place s).1) } :=
  congrArg Prod.snd (emitCalls_apply construct (names (x place s).1) key place (x place s).2)

end Xref.Reference
