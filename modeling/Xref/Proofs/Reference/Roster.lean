import Mathlib.Data.List.Perm.Subperm
import Xref.Proofs.Declaration.Collecting
import Xref.Proofs.Reference.Tracing

/-!
# What a collection declares

A collection goes over the same trees as a walk, before it. `Entry` is one type that it declares, at
the spot where a walk will come to it. `Declares` says which entries a collection over a region of
spots adds: every type that does not stand apart, in order, with consecutive numbers, and each in
the context in which the walk will see it, provided that the names of the types around it are known.
-/
open List Option Bool

namespace Xref.Reference

open Declaration Java Syntax Text Spot

def Spot.children (d : Declarations) (source : List Char) (s : Spot) : List Spot :=
  s.tree.children.map fun c => ⟨c, s.view.enter d source s.tree c⟩

/-- The members that a tree in a body stands for. Those of an enum follow its constants in a part of
their own. -/
def Spot.asMembers (d : Declarations) (source : List Char) (s : Spot) : List Spot :=
  if s.tree.kind == .enumBodyDeclarations then s.children d source else [s]

def Spot.bodyMembers (d : Declarations) (source : List Char) (s : Spot) : List Spot :=
  (s.children d source).flatMap (Spot.asMembers d source)

/-- The members of the type whose declaration or whose body is at a spot. -/
def Spot.members (d : Declarations) (source : List Char) (s : Spot) : List Spot :=
  if s.tree.kind == .classBody then s.bodyMembers d source
  else
    ((s.children d source).filter fun b => b.tree.role == some .body).flatMap
      (Spot.bodyMembers d source)

def innerSpots (d : Declarations) (source : List Char) (t : Tree) (v : View) : List Spot :=
  t.children.flatMap fun c => spots d source c (v.enter d source t c)

/-- Whether a type can be known by where the tree begins. -/
def Spot.isHead (s : Spot) : Bool := s.tree.kind.isHeaded

def Spot.outer? (s : Spot) : Option Kind := s.view.path.head?.map Tree.kind

def Kind.holdsMembers (k : Kind) : Bool := k.isBody || k == .enumBodyDeclarations

def Spot.isAnonymous (s : Spot) : Bool :=
  s.tree.kind == .classBody &&
    s.outer?.any [.objectCreationExpression, .enumConstant].contains

def Spot.isTop (s : Spot) : Bool :=
  s.tree.kind.isTypeDeclaration && s.outer?.any (· == .program)

def View.inBody (v : View) : Bool := v.path.head?.any fun t => Kind.holdsMembers t.kind

def Spot.isMember (s : Spot) : Bool := s.tree.kind.isTypeDeclaration && s.view.inBody

/-- Whether neither a unit nor the body of a type is directly around a place. -/
def View.inCode (v : View) : Bool :=
  !v.path.head?.any fun t => t.kind == .program || Kind.holdsMembers t.kind

def Spot.isLocal (s : Spot) : Bool := s.tree.kind.isTypeDeclaration && s.view.inCode

/-- Whether a type is declared by the tree, or has it for its body, and does not stand apart. -/
def Spot.isDeclaration (s : Spot) : Bool :=
  !s.view.isApart && (s.tree.kind.isTypeDeclaration || s.isAnonymous)

/-- The innermost class among trees that stand in each other: a declaration of a type, or the body
of a new object or of an enum constant. -/
def holderIn : List Tree → Option Tree
  | [] => none
  | t :: outer =>
    if t.kind.isTypeDeclaration then some t
    else if t.kind == .classBody &&
        outer.head?.any fun p => [.objectCreationExpression, .enumConstant].contains p.kind then
      some t
    else holderIn outer

/-- The type around a declaration. An anonymous class is around its own body. -/
def Spot.owner? (s : Spot) : Option String :=
  if s.isAnonymous then s.view.frames.tail.head? else s.view.frames.head?

variable {d : Declarations} {source : List Char} {t c : Tree} {v : View}
  {region region' : List Spot} {agreed agreed' : Prop}

section

variable {s : Spot}

lemma spots_cons (t : Tree) (v : View) :
    spots d source t v = ⟨t, v⟩ :: innerSpots d source t v := spots_eq t v

lemma mem_innerSpots (hc : c ∈ t.children)
    (hs : s ∈ spots d source c (v.enter d source t c)) : s ∈ innerSpots d source t v :=
  mem_flatMap.mpr ⟨c, hc, hs⟩

lemma exists_of_mem_innerSpots (hs : s ∈ innerSpots d source t v) :
    ∃ c ∈ t.children, s ∈ spots d source c (v.enter d source t c) :=
  mem_flatMap.mp hs

lemma holds_of_mem {P : Tree → View → Prop}
    (hparts : ∀ t v, P t v → ∀ c ∈ t.children, P c (v.enter d source t c)) (h : P t v)
    (hs : s ∈ spots d source t v) : P s.tree s.view := by
  induction t using Tree.induction generalizing v with
  | step t ih =>
    rw [spots_cons] at hs
    rcases mem_cons.mp hs with rfl | hs
    · exact h
    · obtain ⟨c, hc, hs⟩ := exists_of_mem_innerSpots hs
      exact ih c hc (hparts t v h c hc) hs

lemma isApart_of_mem (hv : v.isApart) (hs : s ∈ spots d source t v) : s.view.isApart :=
  holds_of_mem (P := fun _ v => v.isApart) (fun t v hv c _ => by simp [View.enter, hv]) hv hs

lemma plain_of_mem (hshaped : t.Shaped) (h : t.kind.isBare ∨ t.kind.isApart)
    (hs : s ∈ spots d source t v) : s.view.isApart ∨ s.tree.kind.isBare ∨ s.tree.kind.isApart := by
  refine (holds_of_mem (P := fun t v => t.Shaped ∧ (v.isApart ∨ t.kind.isBare ∨ t.kind.isApart))
    (fun t v ht c hc => ⟨ht.1.parts c hc, ?_⟩) ⟨hshaped, .inr h⟩ hs).2
  obtain ⟨hshaped, hv | hbare | hapart⟩ := ht
  · exact .inl (by simp [View.enter, hv])
  · rcases hshaped.fits.admitted c hc with hcomment | hadmits
    · exact .inr (Label.bare_or_apart (Tree.isPlain_of_comment hcomment.kind))
    · exact .inr (Label.bare_or_apart (isPlain_of_admits hbare hadmits))
  · exact .inl (by simp [View.enter, setsApart, hapart])

lemma isDeclaration_of_kind (h : s.tree.kind.isHeaded = false) : s.isDeclaration = false := by
  simp only [Kind.isHeaded, or_eq_false_iff] at h
  simp [isDeclaration, isAnonymous, h.1, h.2]

lemma isDeclaration_of_plain (hshaped : t.Shaped) (h : t.kind.isBare ∨ t.kind.isApart)
    (hs : s ∈ spots d source t v) : s.isDeclaration = false := by
  rcases plain_of_mem hshaped h hs with hapart | hplain
  · simp [isDeclaration, hapart]
  · refine isDeclaration_of_kind ?_
    revert hplain
    cases s.tree.kind <;> decide

lemma inCode_enter (hprogram : t.kind ≠ .program) (hmembers : Kind.holdsMembers t.kind = false)
    (v : View) (c : Tree) : (v.enter d source t c).inCode := by
  simp [View.inCode, View.enter, hprogram, hmembers]

lemma owner?_of_type (h : s.tree.kind.isTypeDeclaration) : s.owner? = s.view.frames.head? := by
  have hne : (s.tree.kind == .classBody) = false := by
    revert h
    cases s.tree.kind <;> decide
  simp [owner?, isAnonymous, hne]

lemma isDeclaration_of_body (hc : c.kind.isBody) (ht : t.kind.isTypeDeclaration) (v : View) :
    isDeclaration ⟨c, v.enter d source t c⟩ = false := by
  have htype : c.kind.isTypeDeclaration = false := by
    revert hc
    cases c.kind <;> decide
  have hanonymous : isAnonymous ⟨c, v.enter d source t c⟩ = false := by
    have hne : [.objectCreationExpression, .enumConstant].contains t.kind = false := by
      revert ht
      cases t.kind <;> decide
    simp only [isAnonymous, outer?, View.enter, head?_cons, map_some, any_some, hne, Bool.and_false]
  simp [isDeclaration, htype, hanonymous]

end

def isGenericConstructor (source : List Char) (t : Tree) : Bool :=
  List.contains [.constructorDeclaration, .compactConstructorDeclaration] t.kind &&
    !(t.typeParameters source).isEmpty

/-- Whether there is no constructor with type variables around a place. -/
def View.isPlain (source : List Char) (v : View) : Bool :=
  v.path.all fun t => !isGenericConstructor source t

/-- The context of a collection is the one at the place that `v` surrounds, but for the type
variables of constructors. -/
structure Scoped (source : List Char) (v : View) (ctx : Context) : Prop where
  package : ctx.package = v.context.package
  plain : v.isPlain source → ctx = v.context

/-- The collection in a context is at the place that `v` surrounds. -/
structure Agrees (source : List Char) (v : View) (owner : String) (ctx : Context) : Prop where
  owner : v.frames.head? = some owner
  context : Scoped source v ctx

/-- The collection in a context is at the place that `v` surrounds, and the innermost class among
these trees is its owner. -/
structure Belongs (d : Declarations) (source : List Char) (v : View) (trees : List Tree)
    (name : String) (ctx : Context) : Prop extends Agrees source v name ctx where
  holder : (holderIn trees).bind d.nameOf? = some name

section

variable {owner : String} {ctx : Context}

lemma isPlain_of_enter (h : (v.enter d source t c).isPlain source) :
    v.isPlain source ∧ isGenericConstructor source t = false := by
  simp only [View.isPlain, View.path_enter, List.all_cons, and_eq_true, not_eq_true'] at h
  exact ⟨h.2, h.1⟩

lemma enter_of_none (htype : typeEntered? d source t c = none) (v : View) :
    (v.enter d source t c).context = v.context.declaring (declared source t) ∧
      (v.enter d source t c).frames = v.frames := by
  simp only [View.enter, htype]
  exact ⟨rfl, rfl⟩

lemma enter_of_some {name : String} {vars : List TypeVariable}
    (htype : typeEntered? d source t c = some (name, vars)) (v : View) :
    (v.enter d source t c).context = (v.context.inside name).declaring vars ∧
      (v.enter d source t c).frames = name :: v.frames := by
  simp only [View.enter, htype]
  exact ⟨rfl, rfl⟩

lemma Scoped.enter_plain (h : Scoped source v ctx) (htype : typeEntered? d source t c = none)
    (hkind : t.kind.isCallable = false) : Scoped source (v.enter d source t c) ctx := by
  have hcontext := (enter_of_none htype v).1
  rw [declared_of_plain hkind, declaring_nil] at hcontext
  exact ⟨hcontext ▸ h.package, fun hplain => hcontext ▸ h.plain (isPlain_of_enter hplain).1⟩

lemma Agrees.enter_plain (h : Agrees source v owner ctx)
    (htype : typeEntered? d source t c = none) (hkind : t.kind.isCallable = false) :
    Agrees source (v.enter d source t c) owner ctx :=
  ⟨(enter_of_none htype v).2 ▸ h.owner, h.context.enter_plain htype hkind⟩

lemma Agrees.enter_through (h : Agrees source v owner ctx) (ht : isThrough t.kind) (c : Tree) :
    Agrees source (v.enter d source t c) owner ctx := by
  obtain ⟨htype, hkind⟩ : typeEntered? d source t c = none ∧ _ := plain_of_through ht c
  exact h.enter_plain htype hkind

lemma Agrees.of_type {name : String} {vars : List TypeVariable}
    (htype : typeEntered? d source t c = some (name, vars)) (h : Scoped source v ctx) :
    Agrees source (v.enter d source t c) name ((ctx.declaring vars).inside name) := by
  obtain ⟨hcontext, hframes⟩ := enter_of_some htype v
  refine ⟨by rw [hframes]; rfl, by rw [hcontext]; exact h.package, fun hplain => ?_⟩
  rw [hcontext, h.plain (isPlain_of_enter hplain).1]
  rfl

end

/-- What numbers are given out for: the anonymous classes of an owner, or its local classes of a
simple name. -/
inductive Counter where
  | anonymous (owner : String)
  | inCode (owner simple : String)
  deriving DecidableEq

def lastNumber (s : Found) : Counter → Nat
  | .anonymous owner => (s.anonymous.lookup owner).getD 0
  | .inCode owner simple => (s.locals.lookup (owner, simple)).getD 0

inductive Naming where
  | top (package simple : String)
  | member (owner simple : String)
  | numbered (counter : Counter) (number : Nat)

namespace Naming

def text : Naming → String
  | top package simple => qualify package simple
  | member owner simple => owner ++ "$" ++ simple
  | numbered (.anonymous owner) number => owner ++ "$" ++ toString number
  | numbered (.inCode owner simple) number => owner ++ "$" ++ toString number ++ simple

def number? (κ : Counter) : Naming → Option Nat
  | numbered counter number => if counter = κ then some number else none
  | _ => none

/-- The binary and the simple name, if it is that of a local class. -/
def localName? : Naming → Option (String × String)
  | numbered (.inCode owner simple) number =>
    some ((numbered (.inCode owner simple) number).text, simple)
  | _ => none

lemma localName?_eq_some {n : Naming} {x : String × String} (h : n.localName? = some x) :
    ∃ owner number, n = numbered (.inCode owner x.2) number ∧ n.text = x.1 := by
  cases n with
  | numbered counter number =>
    cases counter with
    | anonymous => cases h
    | inCode owner simple =>
      obtain rfl := some.inj h
      exact ⟨owner, number, rfl, rfl⟩
  | _ => cases h

/-- The name is made as the declaration at a spot asks for. -/
def Suits (d : Declarations) (source : List Char) (s : Spot) : Naming → Prop
  | top package simple =>
    s.isTop ∧ (s.view.frames = [] ∧ s.view.context.package = package) ∧
      s.tree.nameText? source = some simple
  | member owner simple =>
    s.isMember ∧ (s.owner? = some owner ∧ (holderIn s.view.path).bind d.nameOf? = some owner) ∧
      s.tree.nameText? source = some simple
  | numbered (.anonymous owner) _ => s.isAnonymous ∧ s.owner? = some owner
  | numbered (.inCode owner simple) _ =>
    s.isLocal ∧ s.owner? = some owner ∧ s.tree.nameText? source = some simple

end Naming

structure Entry where
  /-- Where its declaration is, or its body if it has no name of its own. -/
  spot : Spot
  naming : Naming
  context : Context
  info : TypeInfo

def Entry.name (e : Entry) : String := e.naming.text

/-- By what a walk finds the name again. -/
def Entry.key (e : Entry) : Nat × String := (e.spot.tree.start, e.name)

/-- The method that a tree declares for its owner. A compact constructor declares none. -/
def declaredMethod? (source : List Char) (t : Tree) (owner : String) (ctx : Context) :
    Option MethodInfo :=
  match t.kind with
  | .methodDeclaration => methodOf? source t ctx
  | .constructorDeclaration => some (constructorOf source t owner ctx)
  | .annotationTypeElementDeclaration => elementOf? source t ctx
  | _ => none

def declaresMethod (t : Tree) : Bool :=
  List.contains [.methodDeclaration, .constructorDeclaration, .annotationTypeElementDeclaration]
    t.kind

lemma declaredMethod?_eq_none (h : declaresMethod t = false) (source : List Char) (owner : String)
    (ctx : Context) : declaredMethod? source t owner ctx = none := by
  unfold declaredMethod?
  split <;> simp_all [declaresMethod]

/-- The methods that are declared at spots, in a context, for the type that they are members of. -/
def methodsAt (source : List Char) (owner : String) (ctx : Context) (region : List Spot) :
    List MethodInfo :=
  region.filterMap fun y => declaredMethod? source y.tree owner ctx

/-- A type is described as its declaration says. -/
structure Entry.Describes (source : List Char) (e : Entry) : Prop where
  superclass : e.info.superclass = (superclassTree? e.spot.tree).map fun t =>
    writtenRef (t.erased source) (e.context.declaring (e.spot.tree.typeParameters source))
  interfaces : e.info.interfaces = (interfaceTrees e.spot.tree).map fun t =>
    writtenRef (t.erased source) (e.context.declaring (e.spot.tree.typeParameters source))

/-- The context in the body of the type. An anonymous class is declared in its own. -/
def Entry.inner (source : List Char) (e : Entry) : Context :=
  if e.spot.tree.kind.isTypeDeclaration then
    (e.context.declaring (e.spot.tree.typeParameters source)).inside e.name
  else e.context

/-- The entry is what the walk will find at its spot. -/
structure Entry.Faithful (d : Declarations) (source : List Char) (e : Entry) : Prop where
  known : d.nameOf? e.spot.tree = some e.name
  suits : e.naming.Suits d source e.spot
  name : e.info.name = e.name
  kind : e.info.kind = declaredKind e.spot.tree.kind
  package : e.info.package = e.spot.view.context.package
  context : Scoped source e.spot.view e.context
  describes : e.spot.tree.kind.isTypeDeclaration → e.Describes source
  /-- The members of the body, and with those of a record its components. -/
  methods : ∃ members : Members,
    members.methods = methodsAt source e.name (e.inner source) (e.spot.members d source) ∧
    (e.spot.tree.kind.isTypeDeclaration → e.info.methods =
      (addImplicit e.info.kind e.name (e.spot.tree.parameters source) (e.inner source)
        members).methods) ∧
    members.methods ⊆ e.info.methods

/-- The names are those that `d` has at these places. -/
def Knows (d : Declarations) (names : List (Nat × String)) : Prop :=
  ∀ x ∈ names, d.names.lookup x.1 = some x.2

def numbersOf (κ : Counter) (entries : List Entry) : List Nat :=
  entries.filterMap fun e => e.naming.number? κ

/-- The table with these local classes, each in the place of one with the same binary name. -/
def putNames (names : LocalNames) (xs : List (String × String)) : LocalNames :=
  xs.foldl (fun names x => (names.filter fun y => y.1 != x.1) ++ [x]) names

def localNamesOf (entries : List Entry) : List (String × String) :=
  entries.filterMap fun e => e.naming.localName?

lemma putNames_keys (names : LocalNames) (xs : List (String × String)) :
    putNames names xs ⊆ names ++ xs ∧
      (names ++ xs).map Prod.fst ⊆ (putNames names xs).map Prod.fst := by
  induction xs generalizing names with
  | nil => simp [putNames]
  | cons y xs ih =>
    obtain ⟨hsub, hkeys⟩ := ih ((names.filter fun x => x.1 != y.1) ++ [y])
    refine ⟨fun x hx => ?_, fun key hkey => hkeys ?_⟩
    · have hmem := hsub hx
      grind
    · by_cases hsame : key = y.1
      · simp [hsame]
      · simpa [hsame] using hkey

/-- From `s` to `s'` the types of `entries` were declared. -/
structure Adds (d : Declarations) (source : List Char) (region : List Spot) (agreed : Prop)
    (s s' : Found) (entries : List Entry) : Prop where
  names : s'.names = (entries.map Entry.key).reverse ++ s.names
  types : ∃ added, s'.types = s.types ++ added ∧ added.Perm (entries.map Entry.info)
  numbers : ∀ κ, numbersOf κ entries = List.range' (lastNumber s κ + 1)
    (numbersOf κ entries).length ∧
    lastNumber s' κ = lastNumber s κ + (numbersOf κ entries).length
  locals : s'.localNames = putNames s.localNames (localNamesOf entries)
  spots : (entries.map Entry.spot).Sublist (region.filter Spot.isHead)
  complete : ∀ x ∈ region, x.isDeclaration → x ∈ entries.map Entry.spot
  named : ∀ e ∈ entries, e.name ≠ ""
  called : ∀ e ∈ entries, e.info.name = e.name
  faithful : Knows d s'.names → agreed → ∀ e ∈ entries, e.Faithful d source

/-- In the region the collection declares all types that do not stand apart, and none twice. What it
gives passes `post`. -/
def Declares (d : Declarations) (source : List Char) (region : List Spot) (agreed : Prop)
    {α : Type} (post : α → Prop) (x : Collect α) : Prop :=
  ∀ s, post (x s).1 ∧ ∃ entries, Adds d source region agreed s (x s).2 entries

namespace Adds

variable {s s' s'' : Found} {entries entries' : List Entry}

lemma nil (hnames : s'.names = s.names) (htypes : s'.types = s.types)
    (hcount : lastNumber s' = lastNumber s) (hlocals : s'.localNames = s.localNames) :
    Adds d source [] agreed s s' [] where
  names := hnames
  types := ⟨[], by simp [htypes], .refl _⟩
  numbers κ := by simp [numbersOf, hcount]
  locals := hlocals
  spots := List.Sublist.refl _
  complete := by simp
  named := by simp
  called := by simp
  faithful := by simp

section

variable (h : Adds d source region agreed s s' entries)
include h

lemma append (h' : Adds d source region' agreed s' s'' entries') :
    Adds d source (region ++ region') agreed s s'' (entries ++ entries') where
  names := by rw [h'.names, h.names, map_append, reverse_append, append_assoc]
  types := by
    obtain ⟨added, htypes, hperm⟩ := h.types
    obtain ⟨added', htypes', hperm'⟩ := h'.types
    refine ⟨added ++ added', by rw [htypes', htypes, append_assoc], ?_⟩
    rw [map_append]
    exact hperm.append hperm'
  numbers κ := by
    obtain ⟨hnumbers, hcount⟩ := h.numbers κ
    obtain ⟨hnumbers', hcount'⟩ := h'.numbers κ
    have hall : numbersOf κ (entries ++ entries') = numbersOf κ entries ++ numbersOf κ entries' :=
      filterMap_append
    rw [hall, length_append]
    refine ⟨?_, by rw [hcount', hcount, Nat.add_assoc]⟩
    rw [← range'_append_1, Nat.add_right_comm, ← hcount, ← hnumbers, ← hnumbers']
  locals := by simp [h'.locals, h.locals, putNames, localNamesOf]
  spots := by
    rw [map_append, filter_append]
    exact h.spots.append h'.spots
  complete y hy hdeclared := by
    rw [map_append]
    rcases mem_append.mp hy with hy | hy
    · exact mem_append_left _ (h.complete y hy hdeclared)
    · exact mem_append_right _ (h'.complete y hy hdeclared)
  named := forall_mem_append.mpr ⟨h.named, h'.named⟩
  called := forall_mem_append.mpr ⟨h.called, h'.called⟩
  faithful hknows hagreed := by
    refine forall_mem_append.mpr ⟨h.faithful (fun y hy => hknows y ?_) hagreed,
      h'.faithful hknows hagreed⟩
    rw [h'.names]
    exact mem_append_right _ hy

lemma agree (hagreed : agreed' → agreed) : Adds d source region agreed' s s' entries :=
  ⟨h.names, h.types, h.numbers, h.locals, h.spots, h.complete, h.named, h.called,
    fun hknows hagreed' => h.faithful hknows (hagreed hagreed')⟩

lemma mono (hle : (region.filter isHead).Sublist (region'.filter isHead))
    (hdeclared : ∀ y ∈ region', y.isDeclaration → y ∈ region) :
    Adds d source region' agreed s s' entries :=
  ⟨h.names, h.types, h.numbers, h.locals, h.spots.trans hle,
    fun y hy hy' => h.complete y (hdeclared y hy hy') hy', h.named, h.called,
    h.faithful⟩

end

end Adds

namespace Declares

variable {α β : Type} {post : α → Prop} {post' : β → Prop} {x : Collect α}

lemma pure {a : α} (h : post a) : Declares d source [] agreed post (pure a : Collect α) :=
  fun _ => ⟨h, [], .nil rfl rfl rfl rfl⟩

lemma bind {f : α → Collect β} (hx : Declares d source region agreed post x)
    (hf : ∀ a, post a → Declares d source region' agreed post' (f a)) :
    Declares d source (region ++ region') agreed post' (x >>= f) := by
  intro s
  obtain ⟨hpost, entries, h⟩ := hx s
  obtain ⟨hpost', entries', h'⟩ := hf (x s).1 hpost (x s).2
  exact ⟨hpost', entries ++ entries', h.append h'⟩

lemma imp {post' : α → Prop} (h : Declares d source region agreed post x)
    (hpost : ∀ a, post a → post' a) : Declares d source region agreed post' x :=
  fun s => ⟨hpost _ (h s).1, (h s).2⟩

lemma agree (h : Declares d source region agreed post x) (hagreed : agreed' → agreed) :
    Declares d source region agreed' post x := by
  intro s
  obtain ⟨hpost, entries, h⟩ := h s
  exact ⟨hpost, entries, h.agree hagreed⟩

lemma mono (h : Declares d source region agreed post x)
    (hle : (region.filter isHead).Sublist (region'.filter isHead))
    (hdeclared : ∀ y ∈ region', y.isDeclaration → y ∈ region) :
    Declares d source region' agreed post x := by
  intro s
  obtain ⟨hpost, entries, h⟩ := h s
  exact ⟨hpost, entries, h.mono hle hdeclared⟩

lemma forM {l : List β} {f : β → Collect Unit} {region : β → List Spot}
    (hf : ∀ b ∈ l, Declares d source (region b) agreed (fun _ => True) (f b)) :
    Declares d source (l.flatMap region) agreed (fun _ => True) (l.forM f) := by
  induction l with
  | nil => exact .pure trivial
  | cons b l ih =>
    rw [flatMap_cons]
    exact .bind (hf b mem_cons_self) fun _ _ => ih fun b hb => hf b (mem_cons_of_mem _ hb)

end Declares

/-- What is done before a type gets its name: a number can be given out for it. -/
structure Draws (draw : Collect Naming) : Prop where
  names : ∀ s, (draw s).2.names = s.names
  types : ∀ s, (draw s).2.types = s.types
  locals : ∀ s, (draw s).2.localNames = putNames s.localNames (draw s).1.localName?.toList
  numbers : ∀ s κ, match (draw s).1.number? κ with
    | some n => n = lastNumber s κ + 1 ∧ lastNumber (draw s).2 κ = lastNumber s κ + 1
    | none => lastNumber (draw s).2 κ = lastNumber s κ

namespace Draws

lemma of_pure {naming : Naming} (h : ∀ κ, naming.number? κ = none) :
    Draws (pure naming : Collect Naming) where
  names _ := rfl
  types _ := rfl
  locals s := by
    have hlocal : naming.localName? = none := by
      cases naming with
      | numbered counter => simpa [Naming.number?] using h counter
      | _ => rfl
    exact (congrArg (fun x => putNames s.localNames x.toList) hlocal).symm
  numbers s κ := by
    change match naming.number? κ with | some n => _ | none => _
    rw [h κ]
    rfl

lemma of_next {draw : Collect Naming} (counter : Counter)
    (hnames : ∀ s, (draw s).2.names = s.names) (htypes : ∀ s, (draw s).2.types = s.types)
    (hlocals : ∀ s, (draw s).2.localNames = putNames s.localNames (draw s).1.localName?.toList)
    (hnumber : ∀ s, (draw s).1 = .numbered counter (lastNumber s counter + 1))
    (hlast : ∀ s κ, lastNumber (draw s).2 κ =
      if counter = κ then lastNumber s counter + 1 else lastNumber s κ) : Draws draw where
  names := hnames
  types := htypes
  locals := hlocals
  numbers s κ := by
    rw [hnumber, hlast]
    unfold Naming.number?
    dsimp only
    by_cases hκ : counter = κ
    · rw [if_pos hκ, if_pos hκ, hκ]
      exact ⟨rfl, rfl⟩
    · rw [if_neg hκ, if_neg hκ]

lemma lookup_increment {κ : Type} [BEq κ] [LawfulBEq κ] [DecidableEq κ] (key other : κ)
    (counts : List (κ × Nat)) :
    ((increment key counts).2.lookup other).getD 0 =
      if key = other then (counts.lookup key).getD 0 + 1 else (counts.lookup other).getD 0 := by
  unfold increment
  dsimp only
  rw [lookup_cons]
  by_cases h : key = other
  · simp [h]
  · have hne : (other == key) = false := beq_false_of_ne (Ne.symm h)
    simp [h, hne]

lemma anonymous (owner : String) : Draws (do
    let number ← Collect.numberAnonymous owner
    return .numbered (.anonymous owner) number) := by
  refine .of_next (.anonymous owner) (fun _ => rfl) (fun _ => rfl) (fun _ => rfl)
    (fun _ => rfl) fun s κ => ?_
  cases κ with
  | inCode => rfl
  | anonymous other =>
    refine (lookup_increment owner other s.anonymous).trans ?_
    simp only [Counter.anonymous.injEq]
    rfl

lemma inCode (owner simple : String) : Draws (do
    let number ← Collect.numberLocal owner simple
    Collect.addLocalName (owner ++ "$" ++ toString number ++ simple) simple
    return .numbered (.inCode owner simple) number) := by
  refine .of_next (.inCode owner simple) (fun _ => rfl) (fun _ => rfl) (fun _ => rfl)
    (fun _ => rfl) fun s κ => ?_
  cases κ with
  | anonymous => rfl
  | inCode other other' =>
    refine (lookup_increment (owner, simple) (other, other') s.locals).trans ?_
    simp only [Counter.inCode.injEq, Prod.mk.injEq]
    rfl

end Draws

lemma Declares.entry {d : Declarations} {source : List Char} {region : List Spot} {agreed : Prop}
    {draw : Collect Naming} (hdraw : Draws draw) (spot : Spot) (context : Naming → Context)
    (info : Naming → Members → TypeInfo) {inner : Naming → Prop} {post : Naming → Members → Prop}
    {x : Naming → Collect Members} (hhead : spot.isHead) (hname : ∀ s, (draw s).1.text ≠ "")
    (hcalled : ∀ naming members, (info naming members).name = naming.text)
    (hinner : ∀ naming, d.nameOf? spot.tree = some naming.text → agreed → inner naming)
    (hx : ∀ naming, Declares d source region (inner naming) (post naming) (x naming))
    (hfaithful : ∀ s, let naming := (draw s).1
      ∀ members, post naming members → d.nameOf? spot.tree = some naming.text → agreed →
        Entry.Faithful d source ⟨spot, naming, context naming, info naming members⟩) :
    Declares d source (spot :: region) agreed (fun _ => True) (do
      let naming ← draw
      Collect.addName spot.tree.start naming.text
      let members ← x naming
      Collect.addType (info naming members)) := by
  intro s
  obtain ⟨naming, hnaming⟩ : ∃ naming, naming = (draw s).1 := ⟨_, rfl⟩
  obtain ⟨before, hbefore⟩ : ∃ s', s' =
      { (draw s).2 with names := (spot.tree.start, naming.text) :: (draw s).2.names } := ⟨_, rfl⟩
  obtain ⟨hpost, entries, h⟩ := hx naming before
  have hstate : (do
      let naming ← draw
      Collect.addName spot.tree.start naming.text
      let members ← x naming
      Collect.addType (info naming members) : Collect Unit) s = ((), { (x naming before).2 with
          types := (x naming before).2.types ++ [info naming (x naming before).1] }) := by
    rw [hbefore, hnaming]
    rfl
  have hnames : before.names = (spot.tree.start, naming.text) :: s.names := by
    rw [hbefore, hdraw.names]
  have htypes : before.types = s.types := by rw [hbefore, hdraw.types]
  have hcount : lastNumber before = lastNumber (draw s).2 := by
    rw [hbefore]
    rfl
  rw [hstate]
  refine ⟨trivial, ⟨spot, naming, context naming, info naming (x naming before).1⟩ :: entries,
    ?_, ?_, fun κ => ?_, ?_, ?_, ?_, ?_, ?_, ?_⟩
  · dsimp only
    rw [h.names, hnames, map_cons, reverse_cons, append_assoc]
    rfl
  · obtain ⟨added, hadded, hperm⟩ := h.types
    refine ⟨added ++ [info naming (x naming before).1], ?_,
      (perm_append_singleton _ _).trans (hperm.cons _)⟩
    dsimp only
    rw [hadded, htypes, append_assoc]
  · obtain ⟨hnumbers, hafter⟩ := h.numbers κ
    have hdrawn := hdraw.numbers s κ
    rw [← hnaming, ← hcount] at hdrawn
    change numbersOf κ (_ :: entries) = _ ∧ lastNumber (x naming before).2 κ = _
    cases hnumber : naming.number? κ with
    | none =>
      rw [hnumber] at hdrawn
      dsimp only at hdrawn
      have hsame : numbersOf κ (⟨spot, naming, context naming, info naming (x naming before).1⟩ ::
          entries) = numbersOf κ entries := filterMap_cons_none hnumber
      rw [hsame, ← hdrawn]
      exact ⟨hnumbers, hafter⟩
    | some n =>
      rw [hnumber] at hdrawn
      dsimp only at hdrawn
      have hone : numbersOf κ (⟨spot, naming, context naming, info naming (x naming before).1⟩ ::
          entries) = n :: numbersOf κ entries := filterMap_cons_some hnumber
      rw [hone, length_cons, range'_succ, ← hdrawn.2, ← hnumbers, hdrawn.1, ← hdrawn.2]
      exact ⟨rfl, by rw [hafter]; omega⟩
  · have hlocals : before.localNames = putNames s.localNames naming.localName?.toList := by
      rw [hbefore, hdraw.locals, hnaming]
    change (x naming before).2.localNames = _
    rw [h.locals, hlocals]
    cases hlocal : naming.localName? <;> simp [localNamesOf, putNames, hlocal]
  · rw [filter_cons_of_pos hhead]
    exact h.spots.cons_cons _
  · intro y hy hdeclared
    rcases mem_cons.mp hy with rfl | hy
    · exact mem_cons_self
    · exact mem_cons_of_mem _ (h.complete y hy hdeclared)
  · exact forall_mem_cons.mpr ⟨hnaming ▸ hname s, h.named⟩
  · exact forall_mem_cons.mpr ⟨hcalled naming _, h.called⟩
  · intro hknows hagreed
    have hknown : d.nameOf? spot.tree = some naming.text := by
      refine hknows (spot.tree.start, naming.text) ?_
      change _ ∈ (x naming before).2.names
      rw [h.names, hnames]
      exact mem_append_right _ mem_cons_self
    refine forall_mem_cons.mpr ⟨?_, h.faithful hknows (hinner naming hknown hagreed)⟩
    subst hnaming
    exact hfaithful s _ hpost hknown hagreed

end Xref.Reference
