import Mathlib.Data.List.TakeDrop
import Xref.Syntax.Parse

/-!
# The shape of nodes

What stands in a node is limited by its kind: which children it can have, which of them it has at
most once, and which it always has. `Kind.shape` says so for the kinds of nodes whose children are
told apart by their roles. A tree is `Shaped` if this is true of every node in it.
-/
open List Option

namespace Xref.Syntax

open Kind

variable {l : Label} {k kind : Kind} {t : Tree} {cs : List Tree}

abbrev Label := Option Role × Kind

def Tree.label (t : Tree) : Label := (t.role, t.kind)

namespace Kind

/-- Nodes whose parts are apart from the code around them: annotations and lists of parameters. -/
def isApart : Kind → Bool
  | annotationUse | annotationMarker | formalParameters => true
  | _ => false

/-- Names, types, modifiers and clauses made of them. There is code in them only where a part stands
apart. -/
def isBare : Kind → Bool
  | literal | identifier | typeIdentifier | thisKeyword | superKeyword | underscorePattern
  | asterisk | scopedIdentifier | importDeclaration | packageDeclaration
  | voidType | booleanType | integralType | floatingPointType | annotatedType
  | scopedTypeIdentifier | genericType | arrayType | typeArguments | wildcard | dimensions
  | typeParameters | typeParameter | typeBound | typeList | superclass | superInterfaces
  | extendsInterfaces | permits | throwsClause | modifiers | catchFormalParameter | catchType
  | inferredParameters | lineComment | blockComment => true
  | _ => false

def isBody : Kind → Bool
  | classBody | interfaceBody | enumBody | annotationTypeBody => true
  | _ => false

/-- Units, and bodies of types and their parts: these do not stand in code. -/
def isEnclosed : Kind → Bool
  | program | classBody | interfaceBody | enumBody | annotationTypeBody | enumBodyDeclarations
  | enumConstant => true
  | _ => false

def isFragment : Kind → Bool
  | stringFragment | multilineStringFragment => true
  | _ => false

def isCallable (k : Kind) : Bool :=
  List.contains [methodDeclaration, annotationTypeElementDeclaration, constructorDeclaration,
    compactConstructorDeclaration] k

lemma isCallable_cases (h : k.isCallable) :
    k = methodDeclaration ∨ k = annotationTypeElementDeclaration ∨ k = constructorDeclaration ∨
      k = compactConstructorDeclaration := by
  simpa [isCallable] using h

def holdsCallables (k : Kind) : Bool :=
  List.contains [program, classBody, interfaceBody, annotationTypeBody, enumBodyDeclarations] k

def isOutside (k : Kind) : Bool := k.isEnclosed || k.isFragment || k.isCallable

lemma isEnclosed_of_isOutside (h : k.isOutside = false) : k.isEnclosed = false :=
  (Bool.or_eq_false_iff.mp (Bool.or_eq_false_iff.mp h).1).1

def isClassMember (k : Kind) : Bool :=
  k.isTypeDeclaration || List.contains [literal, block, staticInitializer, methodDeclaration,
    fieldDeclaration, constructorDeclaration, compactConstructorDeclaration] k

end Kind

namespace Label

def inRole (r : Role) (l : Label) : Bool := l.1 == some r

def ofKind (k : Kind) (l : Label) : Bool := l.2 == k

/-- Trees that hold no code, or none that counts with the code around them. Modifiers are told by
their kind and not by a role. -/
def isPlain (l : Label) : Bool :=
  l.2.isBare && (l.2 != .modifiers || l.1 == none) || l.2.isApart

end Label

lemma Kind.isComment_cases (h : k.isComment) : k = .lineComment ∨ k = .blockComment := by
  revert h
  cases k <;> simp [isComment]

lemma Kind.not_of_comment {p : Kind → Bool} (h : k.isComment)
    (hline : p .lineComment = false := by rfl) (hblock : p .blockComment = false := by rfl) :
    p k = false := by
  rcases isComment_cases h with rfl | rfl
  · exact hline
  · exact hblock

lemma Label.bare_or_apart (h : l.isPlain) : l.2.isBare ∨ l.2.isApart := by
  simp only [isPlain, Bool.or_eq_true, Bool.and_eq_true] at h
  exact h.imp And.left id

lemma Tree.isPlain_of_comment (h : t.kind.isComment) : t.label.isPlain := by
  have hkind : t.kind.isBare ∧ t.kind ≠ .modifiers := by
    revert h
    cases t.kind <;> decide
  simp [Label.isPlain, Tree.label, hkind.1, hkind.2]

/-- What the children of a node can be, which roles at most one of them has, which kinds at most one
of them has and that without a role, whether at most one of them is a type, which kinds come last,
and which roles some of them have. -/
structure Shape where
  admits : Label → Bool
  single : List Role := []
  singleKinds : List Kind := []
  singleType : Bool := false
  last : List Kind := []
  required : List Role := []

namespace Shape

/-- A node with any children that can stand in code. -/
def free : Shape := { admits := fun l => !l.2.isOutside }

/-- A declaration with a name. Its body has one of these kinds. -/
def declaration (bodies : List Kind) : Shape where
  admits l := if l.inRole .body then bodies.contains l.2 else l.isPlain
  single := [.parameters, .value, .body]
  singleKinds := [.modifiers]
  required := [.name]

/-- The declaration of a type, which lacks certain clauses. -/
def typeDeclaration (lacks : Label → Bool) : Shape where
  admits l :=
    !lacks l &&
      if l.inRole .body then l.2.isBody
      else if l.inRole .parameters then l.2 == .formalParameters
      else if l.inRole .name then l.2 == .identifier
      else l.isPlain && (!l.inRole .superclass || l.2 == .superclass)
  single := [.parameters, .body]
  singleKinds := [.modifiers]
  required := [.name, .body]

/-- A node with code in these roles only, and once in each. -/
def code (roles : List Role) : Shape where
  admits l := l.isPlain || roles.any (fun r => l.inRole r) && !l.2.isOutside
  single := roles

def declarators : Shape where
  admits l := if l.inRole .declarator then l.2 == .variableDeclarator else l.isPlain
  required := [.type]

def body (member : Kind → Bool) : Shape where
  admits l := member l.2

end Shape

/-- What the children of a node of each kind can be. -/
def Kind.shape (kind : Kind) : Shape :=
  if kind.isBare then
    { admits := fun l =>
        l.isPlain && !(kind == .superclass && l.ofKind .typeList) &&
          !(kind == .scopedIdentifier && l.inRole .name && !l.ofKind .identifier) &&
          !(kind == .arrayType && l.inRole .element && !l.2.isType)
      singleKinds := if kind == .catchFormalParameter then [.modifiers] else []
      singleType := kind == .superclass
      required := if kind == .scopedIdentifier then [.name] else [] }
  else match kind with
    | .classDeclaration => .typeDeclaration fun l => l.ofKind .extendsInterfaces
    | .interfaceDeclaration =>
      .typeDeclaration fun l => l.inRole .superclass || l.inRole .interfaces
    | .enumDeclaration | .recordDeclaration | .annotationTypeDeclaration =>
      .typeDeclaration fun l => l.inRole .superclass || l.ofKind .extendsInterfaces
    | .methodDeclaration | .compactConstructorDeclaration => .declaration [.block]
    | .constructorDeclaration => .declaration [.constructorBody]
    | .annotationTypeElementDeclaration =>
      { admits := fun l => l.inRole .value && !l.2.isOutside || l.isPlain && !l.inRole .parameters
        single := [.parameters, .value, .body]
        singleKinds := [.modifiers]
        required := [.type, .name] }
    | .enumConstant =>
      { admits := fun l =>
          if l.inRole .arguments then l.2 == .argumentList
          else if l.inRole .body then l.2 == .classBody
          else l.isPlain
        single := [.arguments, .body]
        singleKinds := [.modifiers]
        last := [.classBody]
        required := [.name] }
    | .fieldDeclaration | .constantDeclaration => .declarators
    | .variableDeclarator => { Shape.code [.value] with required := [.name] }
    | .enhancedForStatement => { Shape.code [.value, .body] with singleKinds := [.modifiers] }
    | .catchClause => { Shape.code [.body] with singleKinds := [.catchFormalParameter] }
    | .lambdaExpression => .code [.body]
    | .binaryExpression => .code [.left, .right]
    | .methodInvocation =>
      { admits := fun l => !l.2.isOutside && (!l.inRole .name || l.ofKind .identifier)
        single := [.object]
        required := [.name] }
    | .objectCreationExpression =>
      { admits := fun l => !l.2.isOutside || l.ofKind .classBody
        singleKinds := [.classBody]
        last := [.classBody]
        required := [.type] }
    | .explicitConstructorInvocation => { Shape.free with required := [.constructor] }
    | .annotationUse | .annotationMarker =>
      { admits := fun l =>
          if l.inRole .arguments then l.2 == .annotationArgumentList
          else if l.inRole .name then [.identifier, .scopedIdentifier].contains l.2
          else l.isPlain
        single := [.arguments]
        required := [.name] }
    | .formalParameter | .spreadParameter =>
      { admits := fun l => !l.2.isOutside && (!l.inRole .type || l.2.isType)
        singleKinds := [.modifiers] }
    | .classBody | .enumBodyDeclarations => .body Kind.isClassMember
    | .interfaceBody =>
      .body fun k => k.isTypeDeclaration ||
        [.literal, .methodDeclaration, .constantDeclaration].contains k
    | .annotationTypeBody =>
      .body fun k => k.isTypeDeclaration ||
        [.literal, .annotationTypeElementDeclaration, .constantDeclaration].contains k
    | .enumBody => .body fun k => [.literal, .enumConstant, .enumBodyDeclarations].contains k
    | .stringLiteral => { admits := fun l => !l.2.isEnclosed && !l.2.isCallable }
    | .program => { admits := fun l => !l.2.isEnclosed && !l.2.isFragment }
    | _ => .free

lemma holder_of_admits (h : k.shape.admits l) (hl : l.2.isFragment ∨ l.2.isCallable) :
    k = .stringLiteral ∨ k.holdsCallables := by
  obtain ⟨r, kind⟩ := l
  have hkind : kind = .stringFragment ∨ kind = .multilineStringFragment ∨
      kind = .methodDeclaration ∨ kind = .annotationTypeElementDeclaration ∨
      kind = .constructorDeclaration ∨ kind = .compactConstructorDeclaration := by
    revert hl
    cases kind <;> simp [isFragment, isCallable]
  have hplain : Label.isPlain (r, kind) = false ∧ kind.isOutside := by
    rcases hkind with rfl | rfl | rfl | rfl | rfl | rfl <;> exact ⟨rfl, rfl⟩
  have hother : kind.isBody = false ∧ kind.isTypeDeclaration = false := by
    rcases hkind with rfl | rfl | rfl | rfl | rfl | rfl <;> exact ⟨rfl, rfl⟩
  unfold shape at h
  split at h
  case isTrue => simp [hplain] at h
  case isFalse =>
    split at h
    case h_25 | h_26 | h_27 | h_28 | h_31 => exact .inr rfl
    case h_30 => exact .inl rfl
    all_goals
      rcases hkind with rfl | rfl | rfl | rfl | rfl | rfl <;>
        simp [Shape.typeDeclaration, Shape.declaration, Shape.declarators, Shape.code, Shape.free,
          Shape.body, Label.ofKind, Label.inRole, hplain, hother] at h

lemma isFragment_of_admits (h : k.shape.admits l) (hk : k ≠ .stringLiteral) :
    l.2.isFragment = false := by
  by_contra hfragment
  have hholds := (holder_of_admits h (.inl (by simpa using hfragment))).resolve_left hk
  obtain ⟨r, kind⟩ := l
  simp only [holdsCallables, contains_cons, contains_nil, Bool.or_false,
    Bool.or_eq_true, beq_iff_eq] at hholds
  have hkind : kind = .stringFragment ∨ kind = .multilineStringFragment := by
    revert hfragment
    cases kind <;> simp [isFragment]
  rcases hkind with rfl | rfl <;> rcases hholds with rfl | rfl | rfl | rfl | rfl <;>
    exact Bool.false_ne_true h

lemma isCallable_of_admits (h : k.shape.admits l) (hk : k.holdsCallables = false) :
    l.2.isCallable = false := by
  by_contra hcallable
  have hstring := (holder_of_admits h (.inr (by simpa using hcallable))).resolve_right
    (by simp [hk])
  subst hstring
  simp [shape, isBare, hcallable] at h

/-- Comments have no role. -/
structure Tree.IsRemark (t : Tree) : Prop where
  role : t.role = none
  kind : t.kind.isComment

/-- The children of a node of this kind are as its shape says. Comments can be among them. -/
structure Fits (kind : Kind) (cs : List Tree) : Prop where
  admitted : ∀ c ∈ cs, c.IsRemark ∨ kind.shape.admits c.label
  single : ∀ r ∈ kind.shape.single, cs.countP (fun c => c.label.inRole r) ≤ 1
  singleKinds : ∀ k ∈ kind.shape.singleKinds, cs.countP (fun c => c.label.ofKind k) ≤ 1
  unroled : ∀ k ∈ kind.shape.singleKinds, ∀ c ∈ cs, c.kind = k → c.role = none
  singleType : kind.shape.singleType → cs.countP (fun c => c.kind.isType) ≤ 1
  last : ∀ k ∈ kind.shape.last, cs.Pairwise fun a b => a.kind = k → b.IsRemark
  required : ∀ r ∈ kind.shape.required, ∃ c ∈ cs, c.label.inRole r

lemma fits_of_admitted {p : Label → Bool} (h : kind.shape = { admits := p }) {cs : List Tree}
    (hcs : ∀ c ∈ cs, p c.label) : Fits kind cs where
  admitted c hc := .inr (by rw [h]; exact hcs c hc)
  single r hr := by rw [h] at hr; cases hr
  singleKinds k hk := by rw [h] at hk; cases hk
  unroled k hk := by rw [h] at hk; cases hk
  singleType htype := by rw [h] at htype; cases htype
  last k hk := by rw [h] at hk; cases hk
  required r hr := by rw [h] at hr; cases hr

lemma fits_of_free (h : kind.shape = .free) (hcs : ∀ c ∈ cs, c.kind.isOutside = false) :
    Fits kind cs :=
  fits_of_admitted h fun c hc => by simp [Tree.label, hcs c hc]

lemma isPlain_of_admits (h : kind.isBare) (hl : kind.shape.admits l) : l.isPlain := by
  simp only [shape, h, if_true, Bool.and_eq_true] at hl
  exact hl.1.1.1

def Kind.isLoose (k : Kind) : Bool :=
  k.isBare && !List.contains [.superclass, .catchFormalParameter, .scopedIdentifier, .arrayType] k

lemma shape_of_loose (h : kind.isLoose) : kind.shape = { admits := Label.isPlain } := by
  simp only [isLoose, Bool.and_eq_true, Bool.not_eq_true', contains_cons, Bool.or_eq_false_iff] at h
  obtain ⟨hbare, hsuper, hcatch, hscoped, harray, _⟩ := h
  simp [shape, hbare, hsuper, hcatch, hscoped, harray]

lemma ne_free_of_bare (h : kind.isBare) : kind.shape ≠ .free := by
  intro hfree
  have hcode : kind.shape.admits (none, .block) := by rw [hfree]; rfl
  cases isPlain_of_admits h hcode

/-- Names, punctuation and comments, which have no parts. -/
def Kind.isAtom (k : Kind) : Bool := k == .identifier || k == .literal || k.isComment

lemma isAtom_of_free (h : kind.shape = .free) : kind.isAtom = false := by
  by_contra hatom
  have hbare : kind.isBare := by
    revert hatom
    cases kind <;> decide
  exact ne_free_of_bare hbare h

lemma fits_of_loose (h : kind.isLoose) (hcs : ∀ c ∈ cs, c.label.isPlain) : Fits kind cs :=
  fits_of_admitted (shape_of_loose h) hcs

def isIdentifier (text : String) : Bool :=
  match text.toList with
  | [] => false
  | c :: cs => Text.isIdentifierStart c && cs.all Text.isIdentifierPart

lemma isIdentifier_iff {text : String} : isIdentifier text ↔
    ∃ c cs, text.toList = c :: cs ∧ Text.isIdentifierStart c ∧ ∀ x ∈ cs,
      Text.isIdentifierPart x := by
  unfold isIdentifier
  split
  · simp_all
  · simp_all

def Kind.isSolid : Kind → Bool
  | literal | identifier | typeIdentifier | thisKeyword | superKeyword | voidType | booleanType
  | integralType | floatingPointType => true
  | _ => false

def isSolid (text : String) : Bool := text.toList.all fun c => !Text.isBlank c

/-- What can be written in a leaf: identifiers are made like identifiers, there is no white space in
names and marks, and generic types are no leaves. -/
structure Lettered (kind : Kind) (text : String) : Prop where
  identifier : kind = .identifier → isIdentifier text
  solid : kind.isSolid → isSolid text
  whole : kind ≠ .genericType

lemma Lettered.of_loose (h : kind.isSolid = false) (hwhole : kind ≠ .genericType)
    (text : String) : Lettered kind text where
  identifier hkind := by
    rw [hkind] at h
    cases h
  solid hsolid := by
    rw [h] at hsolid
    cases hsolid
  whole := hwhole

/-- Every node has the children that its shape asks for, atoms are leaves, and leaves are lettered
as their kinds ask for. -/
inductive Tree.Shaped : Tree → Prop where
  | leaf (role : Option Role) {kind : Kind} (range : Range) {text : String} (hfits : Fits kind [])
      (htext : Lettered kind text) : Shaped (leaf role kind range text)
  | node (role : Option Role) {kind : Kind} (range : Range) {cs : List Tree}
      (hparts : ∀ c ∈ cs, Shaped c) (hfits : Fits kind cs) (hatom : kind.isAtom = false) :
      Shaped (node role kind range cs)

namespace Tree

variable {ts comments : List Tree} {left right first : Tree} {pending sum : List (Tree × Tree)}

lemma induction {P : Tree → Prop} (step : ∀ t : Tree, (∀ c ∈ t.children, P c) → P t) (t : Tree) :
    P t :=
  @Tree.rec P (fun cs => ∀ c ∈ cs, P c)
    (fun _ _ _ _ => step _ fun c hc => by cases hc) (fun _ _ _ _ ih => step _ ih)
    (fun c hc => by cases hc) (fun _ _ ih ihs => forall_mem_cons.mpr ⟨ih, ihs⟩) t

variable {text : String}

@[simp] lemma role_withRole (r : Option Role) : (t.withRole r).role = r := by cases t <;> rfl

@[simp] lemma kind_withRole (r : Option Role) : (t.withRole r).kind = t.kind := by cases t <;> rfl

section

variable (h : t.Shaped)
include h

lemma Shaped.fits : Fits t.kind t.children := by
  cases h with
  | leaf role range hfits htext => exact hfits
  | node role range hparts hfits hatom => exact hfits

lemma Shaped.parts : ∀ c ∈ t.children, c.Shaped := by
  cases h with
  | leaf => exact fun c hc => by cases hc
  | node role range hparts hfits hatom => exact hparts

lemma Shaped.plain (hkind : t.kind.holdsCallables = false) :
    ∀ c ∈ t.children, c.kind.isCallable = false := by
  intro c hc
  rcases h.fits.admitted c hc with hcomment | hadmits
  · exact not_of_comment hcomment.kind
  · exact isCallable_of_admits hadmits hkind

lemma Shaped.children_of_atom (hatom : t.kind.isAtom) : t.children = [] := by
  cases h with
  | leaf => rfl
  | node role range hparts hfits hother =>
    rw [Tree.kind, hother] at hatom
    cases hatom

lemma Shaped.withRole (r : Option Role) : (t.withRole r).Shaped := by
  cases h with
  | leaf role range hfits htext => exact .leaf r range hfits htext
  | node role range hparts hfits hatom => exact .node r range hparts hfits hatom

lemma Shaped.inRole (r : Role) : (t.inRole r).Shaped := h.withRole (some r)

end

/-- A shaped tree that can stand in code. -/
structure IsPart (t : Tree) : Prop where
  shaped : t.Shaped
  kind : t.kind.isOutside = false

lemma IsPart.withRole (h : t.IsPart) (r : Option Role) : (t.withRole r).IsPart :=
  ⟨h.shaped.withRole r, by rw [kind_withRole]; exact h.kind⟩

lemma IsPart.inRole (h : t.IsPart) (r : Role) : (t.inRole r).IsPart := h.withRole (some r)

lemma Shaped.isPart_of_literal (h : t.Shaped) (hkind : t.kind = .literal) : t.IsPart :=
  ⟨h, by rw [hkind]; rfl⟩

lemma isOutside_of_comment (h : k.isComment) : k.isOutside = false := not_of_comment h

lemma Shaped.isPart_of_mem (h : t.Shaped) (hfree : t.kind.shape = .free) :
    ∀ c ∈ t.children, c.IsPart := by
  intro c hc
  refine ⟨h.parts c hc, ?_⟩
  rcases h.fits.admitted c hc with hcomment | hadmits
  · exact isOutside_of_comment hcomment.kind
  · rw [hfree] at hadmits
    exact Bool.not_eq_true' _ ▸ hadmits

section

variable {r : Role} {c : Tree}

lemma exists_child_of_required (h : t.Shaped) (hr : r ∈ t.kind.shape.required) :
    ∃ c, t.child? r = some c := by
  obtain ⟨c, hc, hrole⟩ := h.fits.required _ hr
  have hsome : (t.child? r).isSome := find?_isSome.mpr ⟨c, hc, hrole⟩
  exact isSome_iff_exists.mp hsome

lemma exists_child_of_kind (h : t.Shaped) (hkind : t.kind = k) (r : Role)
    (hr : r ∈ k.shape.required := by decide) : ∃ c, t.child? r = some c :=
  exists_child_of_required h (by rwa [hkind])

lemma mem_of_child? (h : t.child? r = some c) : c ∈ t.children := mem_of_find?_eq_some h

lemma role_of_child? (h : t.child? r = some c) : c.role = some r :=
  eq_of_beq (find?_some (p := fun c : Tree => c.role == some r) h)

lemma admits_of_child (h : t.Shaped) (hc : t.child? r = some c) :
    c.label.inRole r ∧ t.kind.shape.admits c.label := by
  have hrole := role_of_child? hc
  refine ⟨beq_iff_eq.mpr hrole, (h.fits.admitted c (mem_of_child? hc)).resolve_left fun hcomment =>
    ?_⟩
  rw [hcomment.role] at hrole
  cases hrole

lemma filter_eq_find? {α : Type} {p : α → Bool} {l : List α} (h : l.countP p ≤ 1) :
    l.filter p = (l.find? p).toList := by
  induction l with
  | nil => rfl
  | cons a l ih =>
    cases ha : p a with
    | false =>
      rw [countP_cons_of_neg (by simp [ha])] at h
      rw [filter_cons_of_neg (by simp [ha]), find?_cons_of_neg (by simp [ha]), ih h]
    | true =>
      rw [countP_cons_of_pos ha] at h
      have hnone : l.filter p = [] := by
        rw [← length_eq_zero_iff, ← countP_eq_length_filter]
        omega
      rw [filter_cons_of_pos ha, find?_cons_of_pos ha, hnone]
      rfl

end

def chainKinds : List Kind :=
  [.binaryExpression, .instanceofExpression, .updateExpression, .castExpression, .unaryExpression]

lemma isOutside_of_chain (h : k ∈ chainKinds) : k.isOutside = false := by
  revert h
  cases k <;> decide

structure IsOperator (t : Tree) : Prop where
  shaped : t.Shaped
  kind : t.kind = .literal
  mark : t.isIncrement = false

/-- What can follow the first operand of a chain: operators with their right sides, tests, and
increments. -/
inductive Chained : List Tree → Prop where
  | nil : Chained []
  | operator {op operand : Tree} {rest : List Tree} (hop : op.IsOperator)
      (hoperand : operand.IsPart) (hrest : Chained rest) : Chained (op :: operand :: rest)
  | test {t : Tree} {rest : List Tree} (ht : t.Shaped) (hkind : t.kind = .instanceofExpression)
      (hrest : Chained rest) : Chained (t :: rest)
  | increment {t : Tree} {rest : List Tree} (ht : t.Shaped) (hkind : t.kind = .literal)
      (hmark : t.isIncrement) (hrest : Chained rest) : Chained (t :: rest)

lemma IsOperator.isPart (h : t.IsOperator) : t.IsPart := h.shaped.isPart_of_literal h.kind

lemma Chained.append {xs ys : List Tree} (hxs : Chained xs) (hys : Chained ys) :
    Chained (xs ++ ys) := by
  induction hxs with
  | nil => exact hys
  | operator hop hoperand _ ih => exact .operator hop hoperand ih
  | test ht hkind _ ih => exact .test ht hkind ih
  | increment ht hkind hmark _ ih => exact .increment ht hkind hmark ih

lemma shaped_of_free (role : Option Role) (range : Range) (h : kind.shape = .free)
    (hcs : ∀ c ∈ cs, c.IsPart) : (node role kind range cs).Shaped :=
  .node role range (fun c hc => (hcs c hc).shaped) (fits_of_free h fun c hc => (hcs c hc).kind)
    (isAtom_of_free h)

lemma isPart_of_chain (role : Option Role) (range : Range) (h : kind ∈ chainKinds)
    (hfree : kind.shape = .free) (hcs : ∀ c ∈ cs, c.IsPart) : (node role kind range cs).IsPart :=
  ⟨shaped_of_free role range hfree hcs, isOutside_of_chain h⟩

lemma label_inRole (r : Role) (t : Tree) : (t.inRole r).label = (some r, t.kind) := by
  cases t <;> rfl

lemma isPart_binary {operator : Tree} (hleft : left.IsPart) (hop : operator.IsOperator)
    (hright : right.IsPart) : (binary left operator right).IsPart := by
  have hshape : binaryExpression.shape = .code [.left, .right] := rfl
  refine ⟨.node none _ ?_ ⟨?_, ?_, (fun k hk => by cases hk), (fun k hk => by cases hk),
    (fun h => by cases h), (fun k hk => by cases hk), fun r hr => by cases hr⟩ rfl, rfl⟩
  · simp only [forall_mem_cons, not_mem_nil, false_implies, implies_true, and_true]
    exact ⟨hleft.shaped.inRole _, hop.shaped.inRole _, hright.shaped.inRole _⟩
  · simp only [forall_mem_cons, not_mem_nil, false_implies, implies_true, and_true,
      label_inRole, hop.kind, hshape]
    refine ⟨.inr ?_, .inr rfl, .inr ?_⟩ <;>
      simp [Shape.code, Label.inRole, hleft.kind, hright.kind]
  · simp [hshape, Shape.code, label_inRole, Label.inRole]

lemma isPart_instanceTest {test : Tree} (hleft : left.IsPart) (htest : test.Shaped)
    (hkind : test.kind = .instanceofExpression) : (instanceTest left test).IsPart :=
  isPart_of_chain none _ (by decide) rfl (forall_mem_cons.mpr
    ⟨hleft.inRole _, htest.isPart_of_mem (hkind ▸ rfl)⟩)

/-- The left sides of pending operators, and these themselves. -/
def ShapedPending (pending : List (Tree × Tree)) : Prop :=
  ∀ p ∈ pending, p.1.IsPart ∧ p.2.IsOperator

lemma shaped_closeOperators (level : Nat) (hpending : ShapedPending pending)
    (hright : right.IsPart) :
    ShapedPending (closeOperators level pending right).1 ∧
      (closeOperators level pending right).2.IsPart := by
  induction pending generalizing right with
  | nil => exact ⟨hpending, hright⟩
  | cons pair pending ih =>
    obtain ⟨left, op⟩ := pair
    obtain ⟨⟨hleft, hop⟩, hothers⟩ := forall_mem_cons.mp hpending
    unfold closeOperators
    split
    · exact ih hothers (isPart_binary hleft hop hright)
    · exact ⟨hpending, hright⟩

lemma kind_closeOperators (h : pending ≠ [] ∨ right.role = none ∧ right.kind ∈ chainKinds) :
    (closeOperators 0 pending right).2.role = none ∧
      (closeOperators 0 pending right).2.kind ∈ chainKinds := by
  induction pending generalizing right with
  | nil => exact h.resolve_left (fun hne => hne rfl)
  | cons pair pending ih =>
    unfold closeOperators
    rw [if_pos (Nat.zero_le _)]
    exact ih (.inr ⟨rfl, mem_cons_self⟩)

lemma groupFrom_spec {current : Tree} (hpending : ShapedPending pending)
    (hcurrent : current.IsPart) (hts : Chained ts) :
    (groupFrom pending current ts).IsPart ∧
      (pending ≠ [] ∨ ts ≠ [] ∨ current.role = none ∧ current.kind ∈ chainKinds →
        (groupFrom pending current ts).role = none ∧
          (groupFrom pending current ts).kind ∈ chainKinds) := by
  fun_induction groupFrom pending current ts with
  | case1 pending current =>
    refine ⟨(shaped_closeOperators 0 hpending hcurrent).2, fun h => kind_closeOperators ?_⟩
    exact h.imp id fun h => h.resolve_left fun hne => hne rfl
  | case2 pending current test rest hkind pending' left hclose ih =>
    have hclosed := shaped_closeOperators (precedence "instanceof") hpending hcurrent
    rw [hclose] at hclosed
    cases hts with
    | operator hop => rw [hop.kind] at hkind; cases hkind
    | increment _ hliteral => rw [hliteral] at hkind; cases hkind
    | test ht htest hrest =>
      obtain ⟨hshaped, hlabel⟩ := ih hclosed.1 (isPart_instanceTest hclosed.2 ht htest) hrest
      have hmem : instanceofExpression ∈ chainKinds := by decide
      exact ⟨hshaped, fun _ => hlabel (.inr (.inr ⟨rfl, hmem⟩))⟩
  | case3 pending current mark rest hkind hmark ih =>
    cases hts with
    | operator hop => rw [hop.mark] at hmark; cases hmark
    | test _ htest => rw [htest] at hkind; exact absurd rfl hkind
    | increment ht hliteral _ hrest =>
      have hupdate :
        (node none .updateExpression ⟨current.start, mark.stop⟩ [current, mark]).IsPart :=
        isPart_of_chain none _ (by decide) rfl (forall_mem_cons.mpr
          ⟨hcurrent, forall_mem_singleton.mpr (ht.isPart_of_literal hliteral)⟩)
      obtain ⟨hshaped, hlabel⟩ := ih hpending hupdate hrest
      have hmem : updateExpression ∈ chainKinds := by decide
      exact ⟨hshaped, fun _ => hlabel (.inr (.inr ⟨rfl, hmem⟩))⟩
  | case4 pending current op hkind hmark =>
    cases hts with
    | test _ htest => rw [htest] at hkind; exact absurd rfl hkind
    | increment _ _ hincrement => exact absurd hincrement hmark
  | case5 pending current op hkind hmark operand rest pending' left hclose ih =>
    have hclosed := shaped_closeOperators (precedence op.mark) hpending hcurrent
    rw [hclose] at hclosed
    cases hts with
    | test _ htest => rw [htest] at hkind; exact absurd rfl hkind
    | increment _ _ hincrement => exact absurd hincrement hmark
    | operator hop hoperand hrest =>
      obtain ⟨hshaped, hlabel⟩ :=
        ih (forall_mem_cons.mpr ⟨⟨hclosed.2, hop⟩, hclosed.1⟩) hoperand hrest
      exact ⟨hshaped, fun _ => hlabel (.inl (cons_ne_nil _ _))⟩

structure IsNamePart (t : Tree) : Prop where
  shaped : t.Shaped
  bare : t.kind.isBare
  ne : t.kind ≠ .modifiers
  solid : ∀ role kind range text, t = leaf role kind range text → isSolid text

lemma IsNamePart.isPlain (h : t.IsNamePart) (r : Option Role) : Label.isPlain (r, t.kind) := by
  simp [Label.isPlain, h.bare, h.ne]

lemma isSolid_of_leaf {role : Option Role} {range : Range} (h : (leaf role kind range text).Shaped)
    (hkind : kind.isSolid) : isSolid text := by
  cases h with
  | leaf _ _ _ htext => exact htext.solid hkind

lemma exists_of_mem_mapM {α β : Type} {f : α → Option β} {l : List α} {bs : List β}
    (h : l.mapM f = some bs) {b : β} (hb : b ∈ bs) : ∃ a ∈ l, f a = some b := by
  induction l generalizing bs with
  | nil =>
    simp only [mapM_nil, Option.pure_def, some.injEq] at h
    subst h
    cases hb
  | cons a l ih =>
    simp only [mapM_cons, bind_eq_bind, bind_eq_some_iff, Option.pure_def, some.injEq] at h
    obtain ⟨b', hb', bs', hbs', rfl⟩ := h
    rcases mem_cons.mp hb with rfl | hb
    · exact ⟨a, mem_cons_self, hb'⟩
    · obtain ⟨a', ha', hf⟩ := ih hbs' hb
      exact ⟨a', mem_cons_of_mem a ha', hf⟩

lemma nameParts_spec (h : t.Shaped) {parts : List Tree} (hparts : t.nameParts = some parts) :
    ∀ x ∈ parts, x.IsNamePart := by
  induction t using Tree.induction generalizing parts with
  | step t ih =>
    unfold nameParts at hparts
    rw [fold_eq] at hparts
    split at hparts
    case h_5 =>
      obtain ⟨lists, hlists, rfl⟩ := map_eq_some_iff.mp hparts
      intro x hx
      obtain ⟨list, hlist, hx⟩ := mem_flatten.mp hx
      obtain ⟨pair, hpair, hvalue⟩ := exists_of_mem_mapM hlists hlist
      obtain ⟨c, hc, rfl⟩ := List.mem_map.mp hpair
      exact ih c hc (h.parts c hc) hvalue x hx
    case h_6 => cases hparts
    all_goals next hkind =>
      obtain rfl := some.inj hparts
      refine forall_mem_singleton.mpr ⟨h, by rw [hkind]; rfl, by rw [hkind]; decide, ?_⟩
      rintro _ kind _ _ rfl
      exact isSolid_of_leaf h (by rw [show kind = _ from hkind]; rfl)

lemma isNamePart_typeIdentifier (role : Option Role) (range : Range) (h : isSolid text) :
    (leaf role .typeIdentifier range text).IsNamePart where
  shaped := .leaf role range (fits_of_loose rfl fun c hc => by cases hc) ⟨nofun, fun _ => h, nofun⟩
  bare := rfl
  ne := nofun
  solid := by
    rintro _ _ _ _ ⟨⟩
    exact h

lemma isNamePart_asTypeName (h : t.IsNamePart) : t.asTypeName.IsNamePart := by
  cases t with
  | leaf role kind range text => exact isNamePart_typeIdentifier role range (h.solid _ _ _ _ rfl)
  | node role kind range cs => exact h

lemma isNamePart_scopedType (h : t.IsNamePart) {parts : List Tree}
    (hparts : ∀ x ∈ parts, x.IsNamePart) : (scopedType t parts).IsNamePart := by
  fun_induction scopedType t parts with
  | case1 t dot name rest inner ih =>
    simp only [forall_mem_cons] at hparts
    obtain ⟨hdot, hname, hrest⟩ := hparts
    have hinner := isNamePart_asTypeName hname
    refine ih ⟨.node none _ ?_ (fits_of_loose rfl ?_) rfl, rfl, nofun, ?_⟩ hrest
    · simp only [forall_mem_cons, not_mem_nil, false_implies, implies_true, and_true]
      exact ⟨h.shaped, hdot.shaped, hinner.shaped.withRole none⟩
    · simp only [forall_mem_cons, not_mem_nil, false_implies, implies_true, and_true]
      refine ⟨h.isPlain _, hdot.isPlain _, ?_⟩
      rw [Tree.label, kind_withRole]
      exact hinner.isPlain _
    · intro _ _ _ _ hleaf
      cases hleaf
  | case2 t => exact h

lemma isOutside_of_bare (h : k.isBare) : k.isOutside = false := by
  revert h
  cases k <;> decide

lemma IsNamePart.isPart (h : t.IsNamePart) : t.IsPart := ⟨h.shaped, isOutside_of_bare h.bare⟩

lemma isPart_typeNamed (h : t.Shaped) {type : Tree} (htype : t.typeNamed? = some type) :
    type.IsPart := by
  unfold typeNamed? at htype
  split at htype
  case h_1 role range text rest hparts =>
    have hspec := nameParts_spec h hparts
    split at htype
    · cases htype
    · obtain rfl := some.inj htype
      have hfirst := hspec (leaf role .identifier range text) mem_cons_self
      have hleaf := isNamePart_typeIdentifier none range (hfirst.solid _ _ _ _ rfl)
      exact (isNamePart_scopedType hleaf fun x hx => hspec x (mem_cons_of_mem _ hx)).isPart
  case h_2 => cases htype

lemma kind_of_incremented (h : t.isIncremented) : t.kind = .updateExpression :=
  eq_of_beq ((Bool.and_eq_true _ _).mp h).1

lemma kind_of_prefixed (h : t.isPrefixed) :
    t.kind = .unaryExpression ∨ t.kind = .castExpression ∨ t.kind = .updateExpression := by
  simpa [isPrefixed] using h

lemma castAtEnd_spec {finish : Tree → Tree} (hfinish : ∀ v, v.IsPart → (finish v).IsPart)
    (h : t.Shaped) {build : Tree → Tree} (hbuild : t.castAtEnd? finish = some build) {v : Tree}
    (hv : v.IsPart) : (build v).IsPart ∧ (build v).role = t.role ∧ (build v).kind ∈ chainKinds := by
  induction t using Tree.induction generalizing build v with
  | step t ih =>
    unfold castAtEnd? at hbuild
    rw [fold_eq] at hbuild
    split at hbuild
    case isTrue hincremented =>
      simp only [head?_map, bind_eq_bind, bind_eq_some_iff,
        map_eq_some_iff, Option.pure_def, some.injEq] at hbuild
      obtain ⟨build', ⟨pair, ⟨c, hc, rfl⟩, hbuild'⟩, mark, hmark, rfl⟩ := hbuild
      have hmem := mem_of_mem_head? hc
      have hfree : t.kind.shape = .free := by rw [kind_of_incremented hincremented]; rfl
      have hmark := h.isPart_of_mem hfree mark (mem_of_getLast? hmark)
      have hvalue : (inNode none .updateExpression [mark, v]).IsPart :=
        isPart_of_chain none _ (by decide) rfl
          (forall_mem_cons.mpr ⟨hmark, forall_mem_singleton.mpr hv⟩)
      obtain ⟨hshaped, _, hkind⟩ := ih c hmem (h.parts c hmem) hbuild' hvalue
      exact ⟨hshaped.withRole t.role, role_withRole _, by rw [kind_withRole]; exact hkind⟩
    case isFalse =>
      split at hbuild
      case isTrue hprefixed =>
        simp only [getLast?_map, bind_eq_bind, bind_eq_some_iff,
          map_eq_some_iff, Option.pure_def, some.injEq] at hbuild
        obtain ⟨build', ⟨pair, ⟨c, hc, rfl⟩, hbuild'⟩, rfl⟩ := hbuild
        have hmem := mem_of_getLast? hc
        have hlast := (ih c hmem (h.parts c hmem) hbuild' hv).1
        obtain ⟨hchain, hfree⟩ : t.kind ∈ chainKinds ∧ t.kind.shape = .free := by
          rcases kind_of_prefixed hprefixed with hkind | hkind | hkind <;> rw [hkind] <;>
            exact ⟨by decide, rfl⟩
        have hcs : ∀ x ∈ t.children.dropLast ++ [build' v], x.IsPart := by
          refine forall_mem_append.mpr ⟨fun x hx => ?_, forall_mem_singleton.mpr hlast⟩
          exact h.isPart_of_mem hfree x (dropLast_subset _ hx)
        exact ⟨isPart_of_chain t.role _ hchain hfree hcs, rfl, hchain⟩
      case isFalse =>
        split at hbuild
        case h_1 role _ opening inner closing _ _ =>
          obtain ⟨type, htype, rfl⟩ := map_eq_some_iff.mp hbuild
          have hparts := h.isPart_of_mem rfl
          simp only [children, forall_mem_cons, not_mem_nil, false_implies, implies_true,
            and_true] at hparts
          obtain ⟨hopening, hinner, hclosing⟩ := hparts
          refine ⟨isPart_of_chain role _ (by decide) rfl ?_, rfl, by
            simp [inNode, Tree.kind, chainKinds]⟩
          simp only [forall_mem_cons, not_mem_nil, false_implies, implies_true, and_true]
          exact ⟨hopening, (isPart_typeNamed hinner.shaped htype).inRole _, hclosing,
            (hfinish v hv).inRole _⟩
        case h_2 => cases hbuild

lemma castAtEnd_of_kind (finish : Tree → Tree)
    (h : t.kind = .instanceofExpression ∨ t.kind = .literal) : t.castAtEnd? finish = none := by
  have hincremented : t.isIncremented = false := by rcases h with h | h <;> simp [isIncremented, h]
  have hprefixed : t.isPrefixed = false := by rcases h with h | h <;> simp [isPrefixed, h]
  unfold castAtEnd?
  rw [fold_eq, if_neg (by simp [hincremented]), if_neg (by simp [hprefixed])]
  split
  · rcases h with h | h <;> cases h
  · rfl

lemma isPart_splitIncrements (h : t.IsPart) :
    t.splitIncrements.1.IsPart ∧ ∀ v, v.IsPart → (t.splitIncrements.2 v).IsPart := by
  induction t using Tree.induction with
  | step t ih =>
    unfold splitIncrements
    rw [fold_eq]
    split
    case isFalse => exact ⟨h, fun v hv => hv⟩
    case isTrue hincremented =>
      have hfree : t.kind.shape = .free := by rw [kind_of_incremented hincremented]; rfl
      split
      case h_2 => exact ⟨h, fun v hv => hv⟩
      case h_1 c inner finish cs mark hcs hmark =>
        obtain ⟨first, others, heq, hfirst, _⟩ := map_eq_cons_iff.mp hcs
        have hmem : first ∈ t.children := heq ▸ mem_cons_self
        have hsplit : first.splitIncrements = (inner, finish) := (Prod.mk.inj hfirst).2
        have hparts := h.shaped.isPart_of_mem hfree
        have hinner := ih first hmem (hparts first hmem)
        rw [hsplit] at hinner
        refine ⟨hinner.1, fun v hv => isPart_of_chain t.role _ (by decide) rfl ?_⟩
        exact forall_mem_cons.mpr ⟨hinner.2 v hv,
          forall_mem_singleton.mpr (hparts mark (mem_of_getLast? hmark))⟩

/-- `t` is made of the operand `first`: it is that, or a cast that begins with it. -/
structure Extends (first t : Tree) : Prop where
  isPart : t.IsPart
  role : t.role = first.role
  kind : t.kind = first.kind ∨ t.kind ∈ chainKinds
  /-- Tests and increments are no operands and stay as they are. -/
  eq : first.kind = .instanceofExpression ∨ first.kind = .literal → t = first

lemma Extends.refl (h : t.IsPart) : Extends t t := ⟨h, rfl, .inl rfl, fun _ => rfl⟩

lemma Extends.trans {a b c : Tree} (hab : Extends a b) (hbc : Extends b c) : Extends a c where
  isPart := hbc.isPart
  role := hbc.role.trans hab.role
  kind := hbc.kind.elim (fun h => h ▸ hab.kind) .inr
  eq h := by
    obtain rfl := hab.eq h
    exact hbc.eq h

lemma extends_signedCast {sign : Tree} (hleft : left.IsPart) (hsign : sign.IsPart)
    (hright : right.IsPart) : Extends left (signedCast left sign right) := by
  obtain ⟨hinner, hfinish⟩ := isPart_splitIncrements hright
  unfold signedCast
  dsimp only
  split
  case h_2 => exact .refl hleft
  case h_1 build hbuild =>
    have hsigned : (inNode none .unaryExpression
        [sign.inRole .operator, right.splitIncrements.1.inRole .operand]).IsPart :=
      isPart_of_chain none _ (by decide) rfl (forall_mem_cons.mpr
        ⟨hsign.inRole _, forall_mem_singleton.mpr (hinner.inRole _)⟩)
    obtain ⟨hshaped, hrole, hkind⟩ := castAtEnd_spec hfinish hleft.shaped hbuild hsigned
    refine ⟨hshaped, hrole, .inr hkind, fun hstays => ?_⟩
    rw [castAtEnd_of_kind _ hstays] at hbuild
    cases hbuild

/-- A list that begins with what is made of `first`, and goes on like a chain. -/
def Leads (first : Tree) (ts : List Tree) : Prop :=
  ∃ t rest, ts = t :: rest ∧ Extends first t ∧ Chained rest

def ShapedSum (sum : List (Tree × Tree)) : Prop := ∀ p ∈ sum, p.1.IsOperator ∧ p.2.IsPart

lemma leads_joinCasts {rest : List (Tree × Tree)} (casts : List Bool) (hleft : left.IsPart)
    (hrest : ShapedSum rest) : Leads left (joinCasts left rest casts) := by
  induction rest generalizing left casts with
  | nil => exact ⟨left, [], rfl, .refl hleft, .nil⟩
  | cons pair rest ih =>
    obtain ⟨op, right⟩ := pair
    obtain ⟨⟨hop, hright⟩, hrest⟩ := forall_mem_cons.mp hrest
    have hnext (casts : List Bool) : Leads left (left :: op :: joinCasts right rest casts) := by
      obtain ⟨t, others, heq, ht, hothers⟩ := ih casts hright hrest
      exact ⟨left, op :: t :: others, by rw [heq], .refl hleft, .operator hop ht.isPart hothers⟩
    unfold joinCasts
    split
    · split
      · have hcast := extends_signedCast hleft hop.isPart hright
        obtain ⟨t, others, heq, ht, hothers⟩ := ih casts.tail hcast.isPart hrest
        exact ⟨t, others, heq, hcast.trans ht, hothers⟩
      · exact hnext casts.tail
    · exact hnext casts

lemma leads_readSum (hfirst : first.IsPart) (hsum : ShapedSum sum) (hts : Chained ts) :
    Leads first (readSum first sum.reverse ++ ts) := by
  obtain ⟨t, rest, heq, ht, hrest⟩ :=
    leads_joinCasts (castSigns first sum.reverse) hfirst fun p hp => hsum p (mem_reverse.mp hp)
  exact ⟨t, rest ++ ts, by rw [readSum, heq, cons_append], ht, hrest.append hts⟩

lemma leads_readCastsFrom (hfirst : first.IsPart) (hsum : ShapedSum sum) (hts : Chained ts) :
    Leads first (readCastsFrom first sum ts) := by
  fun_induction readCastsFrom first sum ts with
  | case1 first sum => simpa using leads_readSum hfirst hsum .nil
  | case2 first sum t => exact leads_readSum hfirst hsum hts
  | case3 first sum t next rest hstays ih =>
    -- a test or an increment is the beginning of what follows, and stays as it is
    have hrest (ht : t.IsPart) (hkind : t.kind = .instanceofExpression ∨ t.kind = .literal)
        (hnext : Chained (next :: rest)) :
        ∃ others, readCastsFrom t [] (next :: rest) = t :: others ∧ Chained others := by
      obtain ⟨t', others, heq, ht', hothers⟩ := ih ht (fun p hp => by cases hp) hnext
      exact ⟨others, by rw [heq, ht'.eq hkind], hothers⟩
    refine leads_readSum hfirst hsum ?_
    cases hts with
    | operator hop => simp [hop.kind, hop.mark] at hstays
    | test ht hkind hnext =>
      have hpart : t.IsPart := ⟨ht, by rw [hkind]; rfl⟩
      obtain ⟨others, heq, hothers⟩ := hrest hpart (.inl hkind) hnext
      exact heq ▸ .test ht hkind hothers
    | increment ht hkind hmark hnext =>
      obtain ⟨others, heq, hothers⟩ := hrest (ht.isPart_of_literal hkind) (.inr hkind) hnext
      exact heq ▸ .increment ht hkind hmark hothers
  | case4 first sum t next rest hstays _ ih =>
    cases hts with
    | test _ hkind => simp [hkind] at hstays
    | increment _ _ hmark => simp [hmark] at hstays
    | operator hop hoperand hrest =>
      exact ih hfirst (forall_mem_cons.mpr ⟨⟨hop, hoperand⟩, hsum⟩) hrest
  | case5 first sum t next rest hstays _ ih =>
    cases hts with
    | test _ hkind => simp [hkind] at hstays
    | increment _ _ hmark => simp [hmark] at hstays
    | operator hop hoperand hrest =>
      obtain ⟨t', others, heq, ht', hothers⟩ := ih hoperand (fun p hp => by cases hp) hrest
      exact leads_readSum hfirst hsum (heq ▸ .operator hop ht'.isPart hothers)

/-- A chain makes one tree: its first operand, or what an operator makes. -/
lemma ofChain_spec {rest : List Tree} (hfirst : first.IsPart) (hrole : first.role = none)
    (hrest : Chained rest) :
    ∃ t, ofChain (first :: rest) = [t] ∧ t.Shaped ∧ t.role = none ∧
      (t.kind = first.kind ∨ t.kind ∈ chainKinds) := by
  have hsum : ShapedSum [] := fun p hp => by cases hp
  have hpending : ShapedPending [] := fun p hp => by cases hp
  obtain ⟨current, others, heq, hcurrent, hothers⟩ := leads_readCastsFrom hfirst hsum hrest
  obtain ⟨hshaped, hlabel⟩ := groupFrom_spec hpending hcurrent.isPart hothers
  refine ⟨groupFrom [] current others, by rw [ofChain, heq]; rfl, hshaped.shaped, ?_⟩
  cases others with
  | nil => exact ⟨hcurrent.role.trans hrole, hcurrent.kind⟩
  | cons op others =>
    obtain ⟨hrole, hkind⟩ := hlabel (.inr (.inl (cons_ne_nil _ _)))
    exact ⟨hrole, .inr hkind⟩

structure IsComment (t : Tree) : Prop extends IsRemark t where
  shaped : t.Shaped

@[simp] lemma kind_weave (comments : List Tree) (t : Tree) : (weave comments t).kind = t.kind := by
  cases t <;> rfl

lemma label_weave (comments : List Tree) (t : Tree) : (weave comments t).label = t.label := by
  cases t <;> rfl

lemma weaveAll_cons (comments : List Tree) (c : Tree) (cs : List Tree) :
    ∃ before inside after, comments = before ++ (inside ++ after) ∧
      weaveAll comments (c :: cs) = before ++ weave inside c :: weaveAll after cs := by
  refine ⟨_, _, _, ?_, rfl⟩
  rw [span_eq_takeWhile_dropWhile, span_eq_takeWhile_dropWhile]
  simp only [takeWhile_append_dropWhile]

lemma countP_weaveAll {test : Label → Bool} (hcomments : ∀ x ∈ comments, test x.label = false)
    (cs : List Tree) :
    (weaveAll comments cs).countP (fun c => test c.label) = cs.countP fun c => test c.label := by
  induction cs generalizing comments with
  | nil =>
    rw [weaveAll, countP_nil, countP_eq_zero]
    exact fun x hx => by simp [hcomments x hx]
  | cons c cs ih =>
    obtain ⟨before, inside, after, rfl, heq⟩ := weaveAll_cons comments c cs
    simp only [forall_mem_append] at hcomments
    have hbefore : before.countP (fun x => test x.label) = 0 :=
      countP_eq_zero.mpr fun x hx => by simp [hcomments.1 x hx]
    rw [heq, countP_append, hbefore, countP_cons, countP_cons, label_weave,
      ih hcomments.2.2, Nat.zero_add]

lemma mem_weaveAll (h : t ∈ weaveAll comments cs) :
    t ∈ comments ∨ ∃ c ∈ cs, ∃ inside, (∀ x ∈ inside, x ∈ comments) ∧ t = weave inside c := by
  induction cs generalizing comments with
  | nil => exact .inl h
  | cons c cs ih =>
    obtain ⟨before, inside, after, rfl, heq⟩ := weaveAll_cons comments c cs
    rw [heq] at h
    rcases mem_append.mp h with h | h
    · exact .inl (mem_append_left _ h)
    rcases mem_cons.mp h with rfl | h
    · refine .inr ⟨c, mem_cons_self, inside, fun x hx => ?_, rfl⟩
      exact mem_append_right _ (mem_append_left _ hx)
    · rcases ih h with h | ⟨c', hc', inside', hinside, rfl⟩
      · exact .inl (mem_append_right _ (mem_append_right _ h))
      · refine .inr ⟨c', mem_cons_of_mem _ hc', inside', fun x hx => ?_, rfl⟩
        exact mem_append_right _ (mem_append_right _ (hinside x hx))

lemma IsComment.inRole (h : t.IsComment) (r : Role) : t.label.inRole r = false := by
  rw [Label.inRole, Tree.label, h.role]
  rfl

lemma isComment_of_single (h : k ∈ kind.shape.singleKinds) : k.isComment = false := by
  have hall : ∀ k ∈ kind.shape.singleKinds, k.isComment = false := by cases kind <;> decide
  exact hall k h

lemma IsComment.ofKind (h : t.IsComment) (hk : k ∈ kind.shape.singleKinds) :
    t.label.ofKind k = false := by
  rw [Label.ofKind, beq_eq_false_iff_ne]
  intro heq
  have hcomment := isComment_of_single hk
  rw [← heq] at hcomment
  exact absurd h.kind (by simpa [Tree.label] using hcomment)

lemma IsComment.isType (h : t.IsComment) : t.kind.isType = false := not_of_comment h.kind

lemma pairwise_weaveAll (hk : k.isComment = false) (hcomments : ∀ x ∈ comments, x.IsComment)
    (h : cs.Pairwise fun a b => a.kind = k → b.IsRemark) :
    (weaveAll comments cs).Pairwise fun a b => a.kind = k → b.IsRemark := by
  have hne {x : Tree} (hx : x.IsComment) : x.kind ≠ k := by
    intro heq
    have hkind := hx.kind
    rw [heq, hk] at hkind
    cases hkind
  induction cs generalizing comments with
  | nil => exact pairwise_of_forall_mem_list fun a ha b _ heq => absurd heq (hne (hcomments a ha))
  | cons c cs ih =>
    obtain ⟨before, inside, after, rfl, heq⟩ := weaveAll_cons comments c cs
    simp only [forall_mem_append] at hcomments
    obtain ⟨hbefore, _, hafter⟩ := hcomments
    obtain ⟨hc, hcs⟩ := pairwise_cons.mp h
    rw [heq]
    refine pairwise_append.mpr
      ⟨pairwise_of_forall_mem_list fun a ha b _ heq => absurd heq (hne (hbefore a ha)),
        pairwise_cons.mpr ⟨fun b hb hkind => ?_, ih hafter hcs⟩,
        fun a ha b _ heq => absurd heq (hne (hbefore a ha))⟩
    rcases mem_weaveAll hb with hb | ⟨c', hc', inside', _, rfl⟩
    · exact (hafter b hb).toIsRemark
    · rw [kind_weave] at hkind
      have hremark := hc c' hc' hkind
      refine ⟨?_, by rw [kind_weave]; exact hremark.kind⟩
      exact (congrArg Prod.fst (label_weave inside' c')).trans hremark.role

lemma isComment_of_last (h : k ∈ kind.shape.last) : k.isComment = false := by
  have hall : ∀ k ∈ kind.shape.last, k.isComment = false := by cases kind <;> decide
  exact hall k h

lemma fits_weaveAll (h : Fits kind cs) (hcomments : ∀ x ∈ comments, x.IsComment) :
    Fits kind (weaveAll comments cs) where
  admitted t ht := by
    rcases mem_weaveAll ht with ht | ⟨c, hc, inside, _, rfl⟩
    · exact .inl (hcomments t ht).toIsRemark
    · rw [label_weave]
      refine (h.admitted c hc).imp_left fun hc => ⟨?_, by rw [kind_weave]; exact hc.kind⟩
      exact (congrArg Prod.fst (label_weave inside c)).trans hc.role
  single r hr := by
    rw [countP_weaveAll fun x hx => (hcomments x hx).inRole r]
    exact h.single r hr
  singleKinds k hk := by
    rw [countP_weaveAll fun x hx => (hcomments x hx).ofKind hk]
    exact h.singleKinds k hk
  unroled k hk t ht hkind := by
    rcases mem_weaveAll ht with ht | ⟨c, hc, inside, _, rfl⟩
    · exact (hcomments t ht).role
    · rw [kind_weave] at hkind
      exact (congrArg Prod.fst (label_weave inside c)).trans (h.unroled k hk c hc hkind)
  singleType htype := by
    have hcount := @countP_weaveAll comments (fun l => l.2.isType)
      (fun x hx => (hcomments x hx).isType) cs
    exact hcount ▸ h.singleType htype
  last k hk := pairwise_weaveAll (isComment_of_last hk) hcomments (h.last k hk)
  required r hr := by
    have hcount := countP_weaveAll (fun x hx => (hcomments x hx).inRole r) cs
    refine countP_pos_iff.mp ?_
    rw [hcount]
    exact countP_pos_iff.mpr (h.required r hr)

lemma shaped_weave (h : t.Shaped) (hcomments : ∀ x ∈ comments, x.IsComment) :
    (weave comments t).Shaped := by
  induction h generalizing comments with
  | leaf role range hfits htext => exact .leaf role range hfits htext
  | node role range hparts hfits hatom ih =>
    unfold weave
    split
    · exact .node role range hparts hfits hatom
    · refine .node role range (fun t ht => ?_) (fits_weaveAll hfits hcomments) hatom
      rcases mem_weaveAll ht with ht | ⟨c, hc, inside, hinside, rfl⟩
      · exact (hcomments t ht).shaped
      · exact ih c hc fun x hx => hcomments x (hinside x hx)

end Tree

lemma Kind.isTypeDeclaration_cases (h : k.isTypeDeclaration) :
    k = .classDeclaration ∨ k = .interfaceDeclaration ∨ k = .enumDeclaration ∨
      k = .recordDeclaration ∨ k = .annotationTypeDeclaration := by
  revert h
  cases k <;> decide

lemma shape_typeDeclaration (h : k.isTypeDeclaration) :
    ∃ lacks, k.shape = .typeDeclaration lacks := by
  rcases isTypeDeclaration_cases h with rfl | rfl | rfl | rfl | rfl <;> exact ⟨_, rfl⟩

lemma Label.eq_of_inRole {r r' : Role} (h : l.inRole r) (h' : l.inRole r') : r = r' :=
  some.inj ((eq_of_beq h).symm.trans (eq_of_beq h'))

/-- What the children of the declaration of a type can be. -/
structure TypePart (lacks : Label → Bool) (l : Label) : Prop where
  present : lacks l = false
  body : l.inRole .body → l.2.isBody
  parameters : l.inRole .parameters → l.2 = .formalParameters
  name : l.inRole .name → l.2 = .identifier
  superclass : l.inRole .superclass → l.2 = .superclass
  plain : l.inRole .body = false → l.isPlain

lemma typePart_of_admits {lacks : Label → Bool} (h : (Shape.typeDeclaration lacks).admits l) :
    TypePart lacks l := by
  simp only [Shape.typeDeclaration, Bool.and_eq_true, Bool.not_eq_true'] at h
  obtain ⟨hlacks, hl⟩ := h
  have hne {r r' : Role} (hr : l.inRole r) (h : r ≠ r') : ¬ l.inRole r' :=
    fun hr' => h (Label.eq_of_inRole hr hr')
  refine ⟨hlacks, fun h => ?_, fun h => ?_, fun h => ?_, fun h => ?_, fun h => ?_⟩
  · rwa [if_pos h] at hl
  · rw [if_neg (hne h (by decide)), if_pos h] at hl
    exact eq_of_beq hl
  · rw [if_neg (hne h (by decide)), if_neg (hne h (by decide)), if_pos h] at hl
    exact eq_of_beq hl
  · rw [if_neg (hne h (by decide)), if_neg (hne h (by decide)), if_neg (hne h (by decide))] at hl
    simpa [h] using ((Bool.and_eq_true _ _).mp hl).2
  · rw [if_neg (by simp [h])] at hl
    split at hl
    · simp [Label.isPlain, eq_of_beq hl, isApart]
    split at hl
    · simp [Label.isPlain, eq_of_beq hl, isBare]
    · exact ((Bool.and_eq_true _ _).mp hl).1

lemma role_of_modifiers {c : Tree} (hshaped : t.Shaped)
    (hkind : t.kind.isTypeDeclaration ∨ t.kind = .enumConstant) (hc : c ∈ t.children)
    (hmodifiers : c.kind = .modifiers) : c.role = none := by
  refine hshaped.fits.unroled .modifiers ?_ c hc hmodifiers
  rcases hkind with hkind | hkind
  · obtain ⟨lacks, hshape⟩ := shape_typeDeclaration hkind
    rw [hshape]
    exact mem_singleton_self _
  · rw [hkind]
    decide

/-- What is said of a result, such as the unit that a text is read as, is checked by computing it.
-/
instance decidableExistsSome {α : Type} {o : Option α} {P : α → Prop} [DecidablePred P] :
    Decidable (∃ a, o = some a ∧ P a) :=
  decidable_of_iff (o.any fun a => decide (P a))
    (by simp only [Option.any_eq_true, decide_eq_true_eq])

end Xref.Syntax
