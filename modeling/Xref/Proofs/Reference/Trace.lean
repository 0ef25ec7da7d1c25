import Xref.Proofs.Reference.Position
import Xref.Proofs.Reference.Report
import Xref.Proofs.Syntax.Placing

/-!
# What a walk does

`Acts` says of a walk which sites and which annotations it reports. Whatever is to be shown of all
walks follows by induction on it. Not all parts of a tree are followed: `noticed` collects the
annotations in the parts that are.
-/
open List

namespace Xref.Reference

open Declaration Java Resolve Syntax Text Walk

/-- How much of a tree is followed: nothing, its modifiers, the modifiers of its parameters, or all
of it. -/
inductive Extent where
  | nothing | modifiers | parameters | all
  deriving Repr, DecidableEq, Inhabited

inductive Key where
  | role (r : Role)
  | kind (k : Kind)
  deriving Repr, DecidableEq, Inhabited

def Key.test : Key → Tree → Bool
  | role r, c => c.role == some r
  | kind k, c => c.kind == k

/-- How far the children of trees of a kind are followed, unless all of them are. A type without a
name is only walked through. -/
def followingOf (isNamed : Bool) (k : Kind) : Option (List (Key × Extent)) :=
  match Form.ofKind k with
  | .importDeclaration => some []
  | .classDeclaration | .interfaceDeclaration | .enumDeclaration | .annotationTypeDeclaration =>
    if isNamed then some [(.kind .modifiers, .all), (.role .body, .all)] else none
  | .recordDeclaration =>
    if isNamed then
      some [(.kind .modifiers, .all), (.role .parameters, .parameters), (.role .body, .all)]
    else none
  | .enumConstant =>
    some [(.kind .modifiers, .all), (.role .arguments, .all), (.role .body, .all)]
  | .methodDeclaration | .elementDeclaration =>
    some [(.kind .modifiers, .all), (.role .parameters, .parameters), (.role .value, .all),
      (.role .body, .all)]
  | .constructorDeclaration =>
    some [(.kind .modifiers, .all), (.role .parameters, .parameters), (.role .body, .all)]
  | .compactConstructorDeclaration => some [(.kind .modifiers, .all), (.role .body, .all)]
  | .enhancedFor => some [(.kind .modifiers, .all), (.role .value, .all), (.role .body, .all)]
  | .catchClause => some [(.kind .catchFormalParameter, .modifiers), (.role .body, .all)]
  | .lambda => some [(.role .body, .all)]
  | .annotationUse | .annotationMarker => some [(.role .arguments, .all)]
  | .other =>
    if k == .binaryExpression then some [(.role .left, .all), (.role .right, .all)] else none
  | _ => none

/-- How far the children of a tree are followed, by their keys. -/
def plan (d : Declarations) (t : Tree) : Option (List (Key × Extent)) :=
  followingOf (d.nameOf? t).isSome t.kind

def followed (d : Declarations) (t c : Tree) : Extent :=
  match plan d t with
  | none => .all
  | some keys => ((keys.find? fun e => e.1.test c).map Prod.snd).getD .nothing

/-- How much of the child `c` of `t` is followed where `t` itself is followed so far. -/
def Extent.into (d : Declarations) (source : List Char) (t c : Tree) : Extent → Extent
  | nothing => nothing
  | modifiers => if c.kind == .modifiers then all else nothing
  | parameters => if (Parameter.ofTree? source c).isSome then modifiers else nothing
  | all => followed d t c

def isAnnotation (k : Kind) : Bool := k == .annotationUse || k == .annotationMarker

/-- The names of the annotations in the parts of a tree that are followed. -/
def noticed (d : Declarations) (source : List Char) : Tree → Extent → List Tree :=
  Tree.fold fun t cs e =>
    (if e = .all ∧ isAnnotation t.kind then (t.child? .name).toList else []) ++
      cs.flatMap fun c => c.2 (e.into d source t c.1)

section

variable {d : Declarations} {source : List Char}

lemma noticed_eq (t : Tree) (e : Extent) : noticed d source t e =
    (if e = .all ∧ isAnnotation t.kind then (t.child? .name).toList else []) ++
      t.children.flatMap fun c => noticed d source c (e.into d source t c) := by
  rw [noticed, Tree.fold_eq, flatMap_map]

lemma noticed_nothing (t : Tree) : noticed d source t .nothing = [] := by
  induction t using Tree.induction with
  | step t ih =>
    rw [noticed_eq, if_neg (by simp), nil_append]
    exact flatMap_eq_nil_iff.mpr ih

end

/-- What a walk does: the names of the annotations and the sites that it reports. -/
structure Trace where
  uses : List Tree := []
  sites : List Spot := []

namespace Trace

instance : Append Trace where
  append a b := ⟨a.uses ++ b.uses, a.sites ++ b.sites⟩

def sum {α : Type} (l : List α) (f : α → Trace) : Trace :=
  ⟨l.flatMap fun a => (f a).uses, l.flatMap fun a => (f a).sites⟩

/-- The same in another order. -/
structure Refines (a b : Trace) : Prop where
  uses : a.uses.Perm b.uses
  sites : a.sites.Perm b.sites

lemma sites_append (a b : Trace) : (a ++ b).sites = a.sites ++ b.sites := rfl

lemma append_empty (a : Trace) : a ++ {} = a := by
  change (⟨a.uses ++ [], a.sites ++ []⟩ : Trace) = a
  simp only [append_nil]

lemma Refines.refl (a : Trace) : a.Refines a := ⟨.refl _, .refl _⟩

lemma Refines.trans {a b c : Trace} (h : a.Refines b) (h' : b.Refines c) : a.Refines c :=
  ⟨h.uses.trans h'.uses, h.sites.trans h'.sites⟩

lemma Refines.append {a a' b b' : Trace} (h : a.Refines a') (h' : b.Refines b') :
    (a ++ b).Refines (a' ++ b') :=
  ⟨h.uses.append h'.uses, h.sites.append h'.sites⟩

lemma sum_split {α : Type} (p : α → Bool) (f : α → Trace) (l : List α) :
    (sum (l.filter p) f ++ sum (l.filter fun a => !p a) f).Refines (sum l f) := by
  have hperm {β : Type} (g : α → List β) :
      ((l.filter p).flatMap g ++ (l.filter fun a => !p a).flatMap g).Perm (l.flatMap g) := by
    rw [← flatMap_append]
    exact (filter_append_perm p l).flatMap_right g
  exact ⟨hperm _, hperm _⟩

end Trace

def Stands (source : List Char) (t : Tree) : Prop :=
  ∃ unit q, parse? source = some unit ∧ unit.at? q = some t

/-- Whether the records of a construct are not those of sites, imports and annotations. -/
def Construct.isRemark (construct : Construct) : Bool :=
  construct.location != .importDeclaration && construct.location != .annotationUse &&
    !construct.location.isReported

/-- What a walk goes through: a unit, with the text it is read from, with how each of its calls is
bound and with the spots that can be reported. -/
structure Scene where
  st : Setting
  text : List Char
  binding : Bindings
  holds : Spot → Prop

/-- The span begins at a character of the text that is not white space. -/
def Scene.Covers (o : Scene) (span : Span) : Prop :=
  ∃ r : Range, Inked o.text r ∧ span = o.st.lines.span r.start r.stop

/-- Where `u` surrounds the place and calls have the contexts `κ`, the walk does what the trace
says. -/
inductive Acts (o : Scene) : Contexts → View → Trace → {α : Type} → Walk α → Prop where
  | evaluation {κ : Contexts} {u : View} {α : Type} {x : Walk α}
      (h : Evaluation o.binding κ u.context x) : Acts o κ u {} x
  | bindWith {κ : Contexts} {u : View} {a b : Trace} {α β : Type} {x : Walk α}
      {f : α → Walk β} {P : α → Prop} (hx : Acts o κ u a x)
      (hP : ∀ r s, P (x (u.placeIn o.st r) s).1) (hf : ∀ y, P y → Acts o κ u b (f y)) :
      Acts o κ u (a ++ b) (x >>= f)
  | congr {κ : Contexts} {u : View} {a : Trace} {α : Type} {x y : Walk α}
      (h : Acts o κ u a x) (heq : ∀ r s, y (u.placeIn o.st r) s = x (u.placeIn o.st r) s) :
      Acts o κ u a y
  | moved {κ : Contexts} {u v : View} {a : Trace} {α : Type} {x : Walk α}
      (h : Acts o κ u a x) (hplace : u.place o.st = v.place o.st) : Acts o κ v a x
  | bindVariable {κ : Contexts} {u : View} (name : String) (type : Option TypeName) :
      Acts o κ u {} (Walk.bindVariable name type)
  | bindLocalType {κ : Contexts} {u : View} {t : Tree} {name : String}
      (h : o.st.declarations.nameOf? t = some name) : Acts o κ u {} (Walk.bindLocalType name)
  | emit {κ : Contexts} {u : View} {construct : Construct} (h : construct.isRemark)
      (name : TypeName) {span : Span} (hspan : o.Covers span) :
      Acts o κ u {} (Walk.emit construct name span)
  /-- Finding the names of a report and making it. The spot may be surrounded by less than the place
  where the names are found, if the tree declares type variables for them. -/
  | report {κ : Contexts} {u v : View} {α : Type} {x : Walk α}
      {names : α → List TypeName} {r : Report} {t : Tree}
      (hx : Evaluation o.binding κ v.context x)
      (hnames : Evaluation o.binding κ v.context (r.names t))
      (hsame : ∀ s, ((r.names t (v.place o.st) s).1, (r.names t (v.place o.st) s).2.memory) =
        (names (x (v.place o.st) s).1, (x (v.place o.st) s).2.memory))
      (hv : v.setting o.st = (u.declaring (r.vars o.st.source t)).setting o.st)
      (hdescribes : r.Describes o.st.declarations o.st.source ⟨t, u⟩) (hholds : o.holds ⟨t, u⟩)
      (hinked : Inked o.text (r.key t).range) :
      Acts o κ v { sites := if r.isMain && !u.isApart then [⟨t, u⟩] else [] }
        (reporting r.construct (r.key t) x names)
  | visitImport {κ : Contexts} {u : View} {t : Tree} (h : t.Within o.text)
      (hkind : t.kind = .importDeclaration) (hstands : Stands o.text t) :
      Acts o κ u {} (Walk.visitImport t)
  | use {κ : Contexts} {u : View} {name : Tree}
      (h : name.dottedName o.text ≠ "") (hinked : Inked o.text name.range)
      {values : Walk ElementValues} (hvalues : Evaluation o.binding κ u.context values) :
      Acts o κ u { uses := [name] } (do
        let found ← typeName (name.dottedName (← Walk.setting).source)
        let values ← values
        emitWith .annotationUse found (← Walk.spanOf name) (some values))
  | inScope {κ : Contexts} {u : View} {a : Trace} {body : Walk Unit}
      (h : Acts o κ u a body) : Acts o κ u a (Walk.inScope body)
  /-- Calls are forgotten where the body of a type begins, so they may have other contexts in it. -/
  | insideType {κ : Contexts} (κ' : Contexts) {u : View} {a : Trace}
      {name : String} {vars : List TypeVariable} {body : Walk Unit}
      (h : Acts o κ' (u.inType name vars) a body) :
      Acts o κ u a (Walk.insideType name vars body)
  | withVariables {κ : Contexts} {u : View} {a : Trace} {α : Type}
      {vars : List TypeVariable} {body : Walk α} (h : Acts o κ (u.declaring vars) a body) :
      Acts o κ u a (Walk.withVariables vars body)
  | inside {κ : Contexts} {u : View} {a : Trace} {α : Type} {t : Tree}
      {body : Walk α} (h : Acts o κ (u.within t) a body) : Acts o κ u a (Walk.inside t body)
  | weaken {κ : Contexts} {u : View} {a b : Trace} {α : Type} {x : Walk α}
      (h : Acts o κ u a x) (hrefines : a.Refines b) : Acts o κ u b x

namespace Acts

variable {o : Scene} {κ : Contexts} {u : View} {a b : Trace} {α β : Type} {x : Walk α}
  {f : α → Walk β} {l : List β} {t : Tree}

lemma pure (y : α) : Acts o κ u {} (pure y : Walk α) := .evaluation (.pure y)

lemma bind (hx : Acts o κ u a x) (hf : ∀ y, Acts o κ u b (f y)) : Acts o κ u (a ++ b) (x >>= f) :=
  .bindWith (P := fun _ => True) hx (fun _ _ => trivial) fun y _ => hf y

lemma after (hx : Acts o κ u {} x) (hf : ∀ y, Acts o κ u a (f y)) : Acts o κ u a (x >>= f) :=
  .bind hx hf

lemma before (hx : Acts o κ u a x) (hf : ∀ y, Acts o κ u {} (f y)) : Acts o κ u a (x >>= f) :=
  a.append_empty ▸ .bind hx hf

lemma forM {f : β → Walk Unit} {found : β → Trace} (h : ∀ y ∈ l, Acts o κ u (found y) (f y)) :
    Acts o κ u (.sum l found) (l.forM f) := by
  induction l with
  | nil => exact .pure ()
  | cons y l ih =>
    exact .bind (h y mem_cons_self) fun _ => ih fun y hy => h y (mem_cons_of_mem _ hy)

lemma forM_silent {f : β → Walk Unit} (h : ∀ y ∈ l, Acts o κ u {} (f y)) :
    Acts o κ u {} (l.forM f) := by
  induction l with
  | nil => exact .pure ()
  | cons y l ih =>
    exact .after (h y mem_cons_self) fun _ => ih fun y hy => h y (mem_cons_of_mem _ hy)

lemma mapM (h : ∀ y, Acts o κ u {} (f y)) (l : List α) : Acts o κ u {} (l.mapM f) := by
  induction l with
  | nil => exact .pure []
  | cons y l ih =>
    rw [mapM_cons]
    exact .after (h y) fun b => .after ih fun bs => .pure (b :: bs)

lemma setting {f : Setting → Walk α} (h : Acts o κ u a (f (u.setting o.st))) :
    Acts o κ u a (Walk.setting >>= f) :=
  .congr h fun _ _ => rfl

lemma currentType {f : Option String → Walk α} (h : Acts o κ u a (f u.frames.head?)) :
    Acts o κ u a (Walk.currentType >>= f) :=
  .congr h fun _ _ => rfl

lemma text {name : Tree} {f : String → Walk α} (h : Acts o κ u a (f (name.text o.st.source))) :
    Acts o κ u a (Walk.text name >>= f) :=
  .congr h fun _ _ => rfl

lemma spanOf {f : Span → Walk α} (h : Acts o κ u a (f (o.st.lines.span t.start t.stop))) :
    Acts o κ u a (Walk.spanOf t >>= f) :=
  .congr h fun _ _ => rfl

lemma unitName {f : Option String → Walk α} (h : Acts o κ u a (f (o.st.declarations.nameOf? t))) :
    Acts o κ u a (Walk.unitName t >>= f) :=
  .congr h fun _ _ => rfl

lemma emitAt {construct : Construct} (h : construct.isRemark) (name : TypeName)
    (ht : Inked o.text t.range) : Acts o κ u {} (Walk.emitAt construct name t) :=
  .spanOf (.emit h name ⟨_, ht, rfl⟩)

end Acts

end Xref.Reference
