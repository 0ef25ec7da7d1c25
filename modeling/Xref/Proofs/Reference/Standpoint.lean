import Xref.Proofs.Reference.Sound

/-!
# Where the trees of a unit stand

`View` is all that a walk comes to a tree with: a context, and the types and trees around it.
`View.enter` says how it changes from a tree to one of its children, so a unit is a list of spots,
trees together with what surrounds them. The sites among them are the ones that a walk reports,
unless they stand in annotations, in defaults of annotation elements or in lists of parameters.
-/
open List Bool

namespace Xref.Reference

open Declaration Java Syntax

/-- What surrounds a tree. -/
structure View where
  context : Context
  frames : List String
  path : List Tree
  /-- Whether the tree is part of an annotation, of the default of an annotation element or of a
  list of parameters. -/
  isApart : Bool

namespace View

def inType (v : View) (name : String) (vars : List TypeVariable) : View :=
  { v with context := (v.context.inside name).declaring vars, frames := name :: v.frames }

def declaring (v : View) (vars : List TypeVariable) : View :=
  { v with context := v.context.declaring vars }

def within (v : View) (t : Tree) : View := { v with path := t :: v.path }

end View

variable {t : Tree} {v : View}

def setsApart (t c : Tree) : Bool :=
  t.kind.isApart || t.kind == .annotationTypeElementDeclaration && c.role == some .value

variable (d : Declarations) (source : List Char)

/-- The type that the child `c` of `t` is the body of, or the components of, with the variables
declared for it. -/
def typeEntered? (t c : Tree) : Option (String × List TypeVariable) :=
  if t.kind.isTypeDeclaration then
    if c.role == some .body || t.kind == .recordDeclaration && c.role == some .parameters then
      (d.nameOf? t).map fun name => (name, t.typeParameters source)
    else none
  else if t.kind == .objectCreationExpression && c.kind == .classBody ||
      t.kind == .enumConstant && c.role == some .body then
    (d.nameOf? c).map fun name => (name, [])
  else none

/-- What surrounds the child `c` of a tree `t` that `v` surrounds. -/
def View.enter (v : View) (t c : Tree) : View :=
  let inner : View :=
    match typeEntered? d source t c with
    | some (name, vars) => v.inType name vars
    | none => v.declaring (declared source t)
  { inner with path := t :: v.path, isApart := v.isApart || setsApart t c }

structure Spot where
  tree : Tree
  view : View

/-- Whether a tree is the declaration of a type, if that has a name, or of a method, or a call, or
makes a new object. -/
def isReported (t : Tree) : Bool :=
  t.kind.isTypeDeclaration && (d.nameOf? t).isSome || t.kind.isCallable ||
    List.contains [.methodInvocation, .objectCreationExpression, .explicitConstructorInvocation]
      t.kind

def Spot.isSite (s : Spot) : Bool := !s.view.isApart && isReported d s.tree

/-- A tree and all of its parts, if `v` surrounds the tree. -/
def spots : Tree → View → List Spot :=
  Tree.fold fun t cs v => ⟨t, v⟩ :: cs.flatMap fun c => c.2 (v.enter d source t c.1)

def sites (t : Tree) (v : View) : List Spot := (spots d source t v).filter (Spot.isSite d)

def innerSites (t : Tree) (v : View) : List Spot :=
  t.children.flatMap fun c => sites d source c (v.enter d source t c)

variable {d source}

lemma View.path_enter (v : View) (t c : Tree) : (v.enter d source t c).path = t :: v.path := rfl

lemma spots_eq (t : Tree) (v : View) : spots d source t v =
    ⟨t, v⟩ :: t.children.flatMap fun c => spots d source c (v.enter d source t c) := by
  rw [spots, Tree.fold_eq]
  simp only [flatMap_map]

lemma mem_spots_self (t : Tree) (v : View) : ⟨t, v⟩ ∈ spots d source t v := by
  rw [spots_eq]
  exact mem_cons_self

lemma mem_spots_of_child {c : Tree} (hc : c ∈ t.children) {s : Spot}
    (hs : s ∈ spots d source c (v.enter d source t c)) : s ∈ spots d source t v := by
  rw [spots_eq]
  exact mem_cons_of_mem _ (mem_flatMap.mpr ⟨c, hc, hs⟩)

lemma sites_eq (t : Tree) (v : View) : sites d source t v =
    (if Spot.isSite d ⟨t, v⟩ then [⟨t, v⟩] else []) ++ innerSites d source t v := by
  rw [sites, spots_eq, filter_cons, filter_flatMap]
  split <;> rfl

lemma sites_of_unreported (h : isReported d t = false) :
    sites d source t v = innerSites d source t v := by
  rw [sites_eq, Spot.isSite, h, Bool.and_false, if_neg Bool.false_ne_true, nil_append]

lemma sites_of_apart (h : v.isApart) : sites d source t v = [] := by
  induction t using Tree.induction generalizing v with
  | step t ih =>
    have hinner : innerSites d source t v = [] := by
      refine flatMap_eq_nil_iff.mpr fun c hc => ih c hc ?_
      simp [View.enter, h]
    rw [sites_eq, hinner, Spot.isSite, h]
    rfl

lemma innerSites_of_apart (h : t.kind.isApart) : innerSites d source t v = [] := by
  refine flatMap_eq_nil_iff.mpr fun c _ => sites_of_apart ?_
  simp [View.enter, setsApart, h]

lemma isReported_of_plain (h : t.kind.isBare ∨ t.kind.isApart) : isReported d t = false := by
  have hkind : (t.kind.isTypeDeclaration || t.kind.isCallable || List.contains
      [.methodInvocation, .objectCreationExpression, .explicitConstructorInvocation] t.kind) =
        false := by
    revert h
    cases t.kind <;> decide
  simp only [or_eq_false_iff] at hkind
  simp only [isReported, hkind, Bool.false_and, Bool.or_self]

/-- There is no code in names, types and modifiers but what stands apart. -/
lemma sites_of_plain (hshaped : t.Shaped) (h : t.kind.isBare ∨ t.kind.isApart)
    (v : View) : sites d source t v = [] := by
  induction t using Tree.induction generalizing v with
  | step t ih =>
    rw [sites_of_unreported (isReported_of_plain h)]
    rcases h with hbare | hapart
    · refine flatMap_eq_nil_iff.mpr fun c hc => ih c hc (hshaped.parts c hc) ?_ _
      rcases hshaped.fits.admitted c hc with hcomment | hadmits
      · exact Label.bare_or_apart (Tree.isPlain_of_comment hcomment.kind)
      · exact Label.bare_or_apart (isPlain_of_admits hbare hadmits)
    · exact innerSites_of_apart hapart

def View.setting (st : Setting) (v : View) : Setting :=
  { st with context := v.context, frames := v.frames }

/-- The place that `v` surrounds, in a walk that makes `r` of remembered calls. -/
def View.placeIn (st : Setting) (r : Recall) (v : View) : Place :=
  { v.setting st with remembering := r, path := v.path }

/-- The place that `v` surrounds, in a walk that binds each call anew. -/
def View.place (st : Setting) (v : View) : Place := v.placeIn st .never

def Place.view (place : Place) : View where
  context := place.context
  frames := place.frames
  path := place.path
  isApart := false

lemma View.placeIn_congr {st : Setting} {u : View} (h : u.place st = v.place st) (r : Recall) :
    u.placeIn st r = v.placeIn st r :=
  congrArg (fun p : Place => { p with remembering := r }) h

lemma View.declaring_nil (v : View) : v.declaring [] = v := by simp [View.declaring]

/-- Whether trees of a kind change nothing for their children but that they are around them. -/
def isThrough (k : Kind) : Bool :=
  !(k.isTypeDeclaration || k.isCallable || k == .objectCreationExpression || k == .enumConstant)

section

variable {st : Setting} {t c : Tree}

lemma place_enter (htype : typeEntered? d source t c = none) (u : View) :
    (u.enter d source t c).place st = ((u.declaring (declared source t)).within t).place st := by
  simp only [View.enter, htype]
  rfl

lemma place_enter_type {name : String} {vars : List TypeVariable}
    (htype : typeEntered? d source t c = some (name, vars)) (u : View) :
    (u.enter d source t c).place st = ((u.inType name vars).within t).place st := by
  simp only [View.enter, htype]
  rfl

lemma place_enter_plain (htype : typeEntered? d source t c = none)
    (hkind : t.kind.isCallable = false) (u : View) :
    (u.enter d source t c).place st = (u.within t).place st := by
  rw [place_enter htype, declared_of_plain hkind, View.declaring_nil]

lemma plain_of_through (h : isThrough t.kind) (c : Tree) :
    typeEntered? d source t c = none ∧ t.kind.isCallable = false := by
  simp only [isThrough, not_eq_true', or_eq_false_iff] at h
  obtain ⟨⟨⟨htype, hcallable⟩, hcreation⟩, hconstant⟩ := h
  exact ⟨by simp [typeEntered?, htype, hcreation, hconstant], hcallable⟩

lemma place_enter_through (h : isThrough t.kind) (c : Tree) (u : View) :
    (u.enter d source t c).place st = (u.within t).place st := by
  obtain ⟨htype, hkind⟩ : typeEntered? d source t c = none ∧ _ := plain_of_through h c
  exact place_enter_plain htype hkind u

lemma typeEntered?_of_callable (hkind : t.kind.isCallable) (c : Tree) :
    typeEntered? d source t c = none := by
  rcases Kind.isCallable_cases hkind with h | h | h | h <;>
    simp [typeEntered?, h, Kind.isTypeDeclaration]

end

end Xref.Reference
