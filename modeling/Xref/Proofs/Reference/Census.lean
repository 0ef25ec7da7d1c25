import Xref.Proofs.Reference.Coverage
import Xref.Proofs.Reference.Declaring

/-!
# The types of a unit

The members of a type are declared from its body, and with that each tree declares the types in it.
A unit declares every type that does not stand apart, each one once, as a walk will find it.
-/
open List Bool

namespace Xref.Reference

open Declaration Java Syntax Text Kind Spot Tree Collector

variable {d : Declarations} {t c unit : Tree} {v : View} {owner : String} {ctx : Context}
  {source : List Char}

section

lemma Agrees.enter_method (h : Agrees source v owner ctx) (hkind : t.kind = .methodDeclaration)
    {name : Tree} (hname : t.child? .name = some name) (c : Tree) :
    Agrees source (v.enter d source t c) owner (methodContext source t ctx) := by
  have htype : typeEntered? d source t c = none := by simp [typeEntered?, hkind, isTypeDeclaration]
  obtain ⟨hcontext, hframes⟩ := enter_of_none htype v
  rw [declared_of_named (hkind ▸ rfl) hname] at hcontext
  refine ⟨hframes ▸ h.owner, hcontext ▸ h.context.package, fun hplain => ?_⟩
  rw [hcontext, h.context.plain (isPlain_of_enter hplain).1]
  rfl

lemma Agrees.enter_constructor (h : Agrees source v owner ctx)
    (hkind : t.kind = .constructorDeclaration ∨ t.kind = .compactConstructorDeclaration)
    (c : Tree) : Agrees source (v.enter d source t c) owner ctx := by
  have htype : typeEntered? d source t c = none := by
    rcases hkind with hkind | hkind <;> simp [typeEntered?, hkind, isTypeDeclaration]
  obtain ⟨hcontext, hframes⟩ := enter_of_none htype v
  refine ⟨hframes ▸ h.owner, hcontext ▸ h.context.package, fun hplain => ?_⟩
  obtain ⟨hplain, hgeneric⟩ := isPlain_of_enter hplain
  have hvars : t.typeParameters source = [] := by
    rcases hkind with hkind | hkind <;> simpa [isGenericConstructor, hkind] using hgeneric
  have hdeclared : declared source t = [] := by
    unfold declared
    split
    · exact hvars
    · rfl
  rw [hcontext, hdeclared, declaring_nil]
  exact h.context.plain hplain

end

section

variable {σ : Collector.Setting} {cs : Valued Collector}
variable {agreed : Prop} {k : Kind} {l : Label} {α : Type} {a : α}

lemma isMember_of_admits (hk : holdsMembers k) (hl : k.shape.admits l) : isMember l.2 := by
  obtain ⟨r, k'⟩ := l
  have hkinds : k = .classBody ∨ k = .enumBodyDeclarations ∨ k = .interfaceBody ∨
      k = .annotationTypeBody ∨ k = .enumBody := by
    revert hk
    cases k <;> simp [holdsMembers, isBody]
  rcases hkinds with rfl | rfl | rfl | rfl | rfl <;> revert hl <;>
    simp only [shape, Shape.body, isBare, false_eq_true, if_false] <;>
    cases k' <;> decide

lemma isMember_of_child (hshaped : t.Shaped)
    (hkind : Kind.holdsMembers t.kind) (hc : c ∈ t.children) : Kind.isMember c.kind := by
  rcases hshaped.fits.admitted c hc with hcomment | hadmits
  · simp [Kind.isMember, hcomment.kind]
  · exact isMember_of_admits hkind hadmits

lemma isThrough_of_body (hkind : holdsMembers t.kind) : isThrough t.kind := by
  revert hkind
  cases t.kind <;> decide

lemma declaresMethod_of_unnamed (h : c.isNamed = false) (v : View) :
    ∀ y ∈ asMembers d σ.source ⟨c, v⟩, declaresMethod y.tree = false := by
  have hkind : c.kind = .literal := by simpa [isNamed] using h
  intro y hy
  rw [asMembers, if_neg (by simp [hkind])] at hy
  rw [mem_singleton.mp hy, declaresMethod, hkind]
  rfl

lemma membersFrom_declares (h : DeclaringParts d σ t cs) (hkind : Kind.holdsMembers t.kind)
    (v : View) (owner : String) (kind : TypeKind) (ctx : Context) (found : Members) :
    Declares d σ.source (innerSpots d σ.source t v) (Belongs d σ.source v (t :: v.path) owner ctx)
      (Joins σ.source owner ctx (Spot.bodyMembers d σ.source ⟨t, v⟩) found)
      (membersFrom cs owner kind ctx found) := by
  have hstep (c : Tree × Collector) (hc : c ∈ cs.named) (found : Members) :
      DeclaresMember d σ.source c.1 (v.enter d σ.source t c.1)
        (Belongs d σ.source v (t :: v.path) owner ctx) owner ctx found
        (c.2.member owner kind ctx found) := by
    have hmem := Valued.mem_of_mem_named hc
    have hagrees (h : Belongs d σ.source v (t :: v.path) owner ctx) :
        Belongs d σ.source (v.enter d σ.source t c.1) (v.enter d σ.source t c.1).path owner ctx :=
      ⟨h.toAgrees.enter_through (isThrough_of_body hkind) c.1, h.holder⟩
    exact ((h.parts c hmem).member (isMember_of_child h.shaped hkind (h.mem_children hmem))
      (v.enter d σ.source t c.1) owner kind ctx found hkind).agree hagrees
  have hmembers : Spot.bodyMembers d σ.source ⟨t, v⟩ = cs.flatMap fun c =>
      Spot.asMembers d σ.source ⟨c.1, v.enter d σ.source t c.1⟩ := by
    rw [Spot.bodyMembers, Spot.children, ← h.trees, map_map, flatMap_map]
    rfl
  refine (Declares.of_filter h (fun c _ hunnamed => .inl (bare_of_unnamed hunnamed))
    (Declares.foldlM hstep found)).imp fun result hjoins => ?_
  -- punctuation declares no methods
  have hunnamed (c : Tree × Collector) (_ : c ∈ cs) (h : c.1.isNamed = false) :
      methodsAt σ.source owner ctx
        (Spot.asMembers d σ.source ⟨c.1, v.enter d σ.source t c.1⟩) = [] :=
    filterMap_eq_nil_iff.mpr fun y hy =>
      declaredMethod?_eq_none (declaresMethod_of_unnamed h _ y hy) σ.source owner ctx
  rw [Joins, methodsAt, filterMap_flatMap] at hjoins
  rw [Joins, hjoins, hmembers, methodsAt, filterMap_flatMap]
  exact congrArg (found.methods ++ ·) (flatMap_filter_of_nil hunnamed)

lemma asMembers_of_kind (h : t.kind ≠ .enumBodyDeclarations) (v : View) :
    asMembers d σ.source ⟨t, v⟩ = [⟨t, v⟩] :=
  if_neg (by simp [h])

lemma Joins.of_other {source : List Char} {a b : Members}
    (hkind : t.kind ≠ .enumBodyDeclarations) (hmethod : declaresMethod t = false) (v : View)
    (h : b.methods = a.methods) : Joins source owner ctx (asMembers d source ⟨t, v⟩) a b := by
  refine .of_methods h fun y hy => ?_
  rw [asMembers, if_neg (by simp [hkind])] at hy
  rw [mem_singleton.mp hy]
  exact hmethod

lemma Declares.map {region : List Spot} {post : α → Prop} {x : Collect Unit}
    (hx : Declares d σ.source region agreed (fun _ => True) x) (ha : post a) :
    Declares d σ.source region agreed post (do x; Pure.pure a) := by
  have hlast : Declares d σ.source [] agreed post (Pure.pure a : Collect α) := .pure ha
  have h := hx.bind fun _ _ => hlast
  rwa [append_nil] at h

lemma kind_of_declarator (hshaped : t.Shaped) (hshape : t.kind.shape = .declarators)
    (hc : c ∈ t.children) (hrole : c.role = some .declarator) : c.kind = .variableDeclarator := by
  have hadmits := (hshaped.fits.admitted c hc).resolve_left fun hremark => by
    rw [hremark.role] at hrole
    cases hrole
  rw [hshape] at hadmits
  simpa [Shape.declarators, Label.inRole, Tree.label, hrole] using hadmits

def Collector.addDeclarator (σ : Collector.Setting) (type : Tree) (isStatic : Bool) (owner : String)
    (ctx : Context) (found : Members) (c : Tree × Collector) : Collect Members := do
  match c.1.nameText? σ.source with
  | none => return found
  | some name =>
    c.2.value owner ctx
    return found.addField ⟨name, declaredRef σ.source type c.1 ctx, isStatic⟩

lemma body_of_callable (hshaped : t.Shaped) {bodies : List Kind}
    (hshape : t.kind.shape = .declaration bodies)
    (hbodies : ∀ k ∈ bodies, k.isEnclosed = false ∧ k.isCallable = false)
    (hc : t.child? .body = some c) : c.kind.isEnclosed = false ∧ c.kind.isCallable = false := by
  obtain ⟨hrole, hadmits⟩ := admits_of_child hshaped hc
  rw [hshape, Shape.declaration] at hadmits
  simp only [hrole, if_true, contains_iff_mem] at hadmits
  exact hbodies _ hadmits

lemma pair_sublist {b : α} {l : List α} (ha : a ∈ l) (hb : b ∈ l) (hne : a ≠ b) :
    [a, b].Sublist l ∨ [b, a].Sublist l := by
  obtain ⟨before, after, rfl⟩ := append_of_mem ha
  rcases mem_append.mp hb with hb | hb
  · exact .inr ((singleton_sublist.mpr hb).append (singleton_sublist.mpr mem_cons_self))
  · have hb : b ∈ after := (mem_cons.mp hb).resolve_left (Ne.symm hne)
    exact .inl (((singleton_sublist.mpr hb).cons_cons a).trans (sublist_append_right before _))

section

variable (h : DeclaringParts d σ t cs)
include h

lemma addFields_declares (hkind : t.kind = .fieldDeclaration ∨ t.kind = .constantDeclaration)
    (v : View) (owner : String) (kind : TypeKind) (ctx : Context) (found : Members) :
    DeclaresMember d σ.source t v (Agrees σ.source v owner ctx) owner ctx found
      (addFields σ t cs owner kind ctx found) := by
  have hshape : t.kind.shape = .declarators := by
    rcases hkind with hkind | hkind <;> rw [hkind] <;> rfl
  have hthrough : isThrough t.kind := by rcases hkind with hkind | hkind <;> rw [hkind] <;> rfl
  have hother : t.kind ≠ .enumBodyDeclarations ∧ declaresMethod t = false ∧
      t.kind.isHeaded = false := by
    unfold declaresMethod
    rcases hkind with hkind | hkind <;> rw [hkind] <;> decide
  obtain ⟨type, htype⟩ := exists_child_of_required h.shaped
    (show Role.type ∈ t.kind.shape.required by rw [hshape]; decide)
  have hdeclared : t.declaredType? = some type := by rw [declaredType?, htype]
  have hstep (c : Tree × Collector) (hc : c ∈ cs.childrenIn .declarator) (isStatic : Bool)
      (found : Members) :
      Declares d σ.source (spots d σ.source c.1 (v.enter d σ.source t c.1))
        (Agrees σ.source v owner ctx)
        (Joins σ.source owner ctx ((fun _ => []) c) found)
        (addDeclarator σ type isStatic owner ctx found c) := by
    obtain ⟨hmem, hrole⟩ := mem_filter.mp hc
    have hrole : c.1.role = some .declarator := eq_of_beq hrole
    have hdeclarator := kind_of_declarator h.shaped hshape (h.mem_children hmem) hrole
    obtain ⟨name, hname⟩ := exists_child_of_required (h.shaped.parts _ (h.mem_children hmem))
      (show Role.name ∈ c.1.kind.shape.required by rw [hdeclarator]; decide)
    have htext : c.1.nameText? σ.source = some (name.text σ.source) := by
      rw [nameText?, hname]
      rfl
    rw [addDeclarator, htext]
    have hvalue := ((h.parts c hmem).value hdeclarator (v.enter d σ.source t c.1) owner ctx).agree
      fun hagrees : Agrees σ.source v owner ctx => hagrees.enter_through hthrough c.1
    exact hvalue.map (.of_methods rfl (by simp))
  unfold addFields
  rw [hdeclared]
  refine .of_inner (isDeclaration_of_kind hother.2.2) ?_
  refine (Declares.of_filter h (p := fun c => c.1.role == some .declarator) (fun c hc hrole => ?_)
    (Declares.foldlM (fun c hc => hstep c hc _) found)).imp fun result hjoins => ?_
  · refine Label.bare_or_apart (l := c.1.label) ?_
    rcases h.shaped.fits.admitted _ (h.mem_children hc) with hremark | hadmits
    · exact isPlain_of_comment hremark.kind
    · have hother : c.1.label.inRole .declarator = false := hrole
      rw [hshape] at hadmits
      simpa [Shape.declarators, hother] using hadmits
  · exact .of_other hother.1 hother.2.1 v (hjoins.trans (by simp [methodsAt]))

lemma callable_declares (hlocal : σ.includeLocal) (bodies : List Kind)
    (hshape : t.kind.shape = .declaration bodies)
    (hbodies : ∀ k ∈ bodies, k.isEnclosed = false ∧ k.isCallable = false)
    (hcallable : t.kind.isCallable) {inner : Context}
    (hinner : ∀ c, Agrees σ.source v owner ctx →
      Agrees σ.source (v.enter d σ.source t c) owner inner)
    {m : MethodInfo} (found : Members) (hm : declaredMethod? σ.source t owner ctx = some m) :
    DeclaresMember d σ.source t v (Agrees σ.source v owner ctx) owner ctx found (do
      scanPart σ (cs.child? .body) owner inner
      return found.addMethod m) := by
  have hkind : t.kind.isHeaded = false ∧ t.kind ≠ .enumBodyDeclarations ∧ t.kind ≠ .program ∧
      holdsMembers t.kind = false := by
    revert hcallable
    cases t.kind <;> decide
  have hbody : Declares d σ.source (innerSpots d σ.source t v) (Agrees σ.source v owner ctx)
      (fun _ => True) (scanPart σ (cs.child? .body) owner inner) := by
    refine .of_role .body h.shaped (by simp [hshape, Shape.declaration]) (fun l hl => ?_)
      (scanPart_declares h hlocal (fun c hc => body_of_callable h.shaped hshape hbodies hc)
        (inCode_enter hkind.2.2.1 hkind.2.2.2 v) fun c _ => hinner c)
    rw [hshape, Shape.declaration] at hl
    dsimp only at hl
    split at hl
    case isTrue hrole => exact .inr hrole
    case isFalse => exact .inl hl
  refine .of_inner (isDeclaration_of_kind hkind.1) (hbody.map ?_)
  rw [asMembers_of_kind hkind.2.1]
  exact .addMethod found hm

lemma compact_declares
    (hkind : t.kind = .compactConstructorDeclaration) (v : View) (owner : String) (ctx : Context) :
    DeclaresIn d σ.source (spots d σ.source t v) v owner ctx (scanFrom σ t cs owner ctx) := by
  unfold scanFrom
  rw [if_neg (by simp [hkind]), if_neg (by simp [hkind, Kind.isTypeDeclaration])]
  refine .of_inner (isDeclaration_of_kind (hkind ▸ rfl)) (scanChildren_declares h
    (fun c _ hagrees => hagrees.enter_constructor (.inr hkind) c) (fun c hc => ?_)
    (inCode_enter (by rw [hkind]; decide) (hkind ▸ rfl) v))
  have hplain (hplain : c.label.isPlain) : c.kind.isEnclosed = false ∧
    c.kind.isCallable = false := by
    have hkind := Label.bare_or_apart hplain
    change c.kind.isBare ∨ c.kind.isApart at hkind
    revert hkind
    cases c.kind <;> decide
  rcases h.shaped.fits.admitted c hc with hremark | hadmits
  · exact hplain (Tree.isPlain_of_comment hremark.kind)
  · have hshape : t.kind.shape = .declaration [.block] := by rw [hkind]; rfl
    rw [hshape, Shape.declaration] at hadmits
    dsimp only at hadmits
    split at hadmits
    case isTrue =>
      have hblock : c.kind = .block := by simpa [Tree.label] using hadmits
      rw [hblock]
      decide
    case isFalse => exact hplain hadmits

lemma element_declares (hkind : t.kind = .annotationTypeElementDeclaration) (v : View)
    (owner : String) (ctx : Context) (found : Members) :
    DeclaresMember d σ.source t v (Agrees σ.source v owner ctx) owner ctx found
      (Pure.pure (((elementOf? σ.source t ctx).map found.addMethod).getD found)) := by
  obtain ⟨name, hname⟩ := Tree.exists_child_of_kind h.shaped hkind .name
  obtain ⟨type, htype⟩ := Tree.exists_child_of_kind h.shaped hkind .type
  have helement : elementOf? σ.source t ctx = some (methodInfo (name.text σ.source) []
      (some (declaredRef σ.source type t ctx)) false false) := by
    simp [elementOf?, Tree.nameText?, Tree.declaredType?, hname, htype]
  refine .of_inner (isDeclaration_of_kind (hkind ▸ rfl)) (.of_none (.pure ?_) fun y hy => ?_)
  · rw [helement, asMembers_of_kind (by rw [hkind]; decide)]
    exact .addMethod found (by rw [declaredMethod?, hkind]; exact helement)
  · obtain ⟨c, hc, hy⟩ := exists_of_mem_innerSpots hy
    by_cases hvalue : c.role = some .value
    · have hapart := isApart_of_mem (by simp [View.enter, setsApart, hkind, hvalue]) hy
      simp [Spot.isDeclaration, hapart]
    · refine isDeclaration_of_plain (h.shaped.parts c hc) (Label.bare_or_apart (l := c.label) ?_) hy
      rcases h.shaped.fits.admitted c hc with hremark | hadmits
      · exact Tree.isPlain_of_comment hremark.kind
      · have hrole : c.label.inRole .value = false := by
          simpa [Label.inRole, Tree.label] using hvalue
        rw [hkind] at hadmits
        simp only [Kind.shape, Kind.isBare, false_eq_true, if_false, hrole, Bool.false_and,
          Bool.false_or, and_eq_true] at hadmits
        exact hadmits.1

end

lemma kinds_of_constant (hshaped : t.Shaped) (hkind : t.kind = .enumConstant) :
    (∀ c, t.child? .arguments = some c → c.kind = .argumentList) ∧
      ∀ c, t.child? .body = some c → c.kind = .classBody := by
  have hpart {r : Role} {c : Tree} (hc : t.child? r = some c) :
      c.label.inRole r ∧ ConstantPart c.label := by
    obtain ⟨hrole, hadmits⟩ := admits_of_child hshaped hc
    exact ⟨hrole, constantPart_of_admits (hkind ▸ hadmits)⟩
  exact ⟨fun c hc => (hpart hc).2.arguments (hpart hc).1,
    fun c hc => (hpart hc).2.body.mp (hpart hc).1⟩

lemma constant_sublist (hshaped : t.Shaped) (hkind : t.kind = .enumConstant) (v : View) :
    (([Role.arguments, Role.body].flatMap (roleSpots d σ.source t v)).filter isHead).Sublist
      ((innerSpots d σ.source t v).filter isHead) := by
  have hregion : [Role.arguments, Role.body].flatMap (roleSpots d σ.source t v) =
      roleSpots d σ.source t v .arguments ++ roleSpots d σ.source t v .body := by simp
  rw [hregion]
  refine List.Sublist.filter _ ?_
  cases hargs : t.child? .arguments with
  | none =>
    rw [show roleSpots d σ.source t v .arguments = [] by rw [roleSpots, hargs]; rfl]
    exact roleSpots_sublist d σ.source t v .body
  | some args =>
    cases hbody : t.child? .body with
    | none =>
      rw [show roleSpots d σ.source t v .body = [] by rw [roleSpots, hbody]; rfl, append_nil]
      exact roleSpots_sublist d σ.source t v .arguments
    | some body =>
      have hrole := role_of_child? hargs
      have hne : args ≠ body := by
        intro heq
        rw [heq, role_of_child? hbody] at hrole
        cases hrole
      have hbodyKind := (kinds_of_constant hshaped hkind).2 body hbody
      have hlast := hshaped.fits.last .classBody (by rw [hkind]; decide)
      have hpair : [args, body].Sublist t.children := by
        rcases pair_sublist (mem_of_child? hargs) (mem_of_child? hbody) hne with h | h
        · exact h
        · have hremark := rel_of_pairwise_cons (hlast.sublist h) mem_cons_self hbodyKind
          rw [hremark.role] at hrole
          cases hrole
      have hspots := hpair.flatMap fun c => spots d σ.source c (v.enter d σ.source t c)
      rw [roleSpots_eq hargs, roleSpots_eq hbody]
      simp only [flatMap_cons, flatMap_nil, append_nil] at hspots
      exact hspots

def Collector.constantBody (σ : Collector.Setting) (owner : String) (ctx : Context) :
    Option (Tree × Collector) → Collect Unit
  | some body =>
    if σ.includeLocal then Collector.declareAnonymous σ body (.qualified owner) owner ctx
    else Pure.pure ()
  | none => Pure.pure ()

lemma addConstant_declares (h : DeclaringParts d σ t cs) (hlocal : σ.includeLocal)
    (hkind : t.kind = .enumConstant) (v : View) (owner : String) (ctx : Context) (found : Members) :
    DeclaresMember d σ.source t v (Agrees σ.source v owner ctx) owner ctx found
      (addConstant σ t cs owner ctx found) := by
  obtain ⟨name, hname⟩ := exists_child_of_kind h.shaped hkind .name
  have htext : t.nameText? σ.source = some (name.text σ.source) := by
    rw [nameText?, hname]
    rfl
  have hargs : DeclaresIn d σ.source (roleSpots d σ.source t v .arguments) v owner ctx
      (scanPart σ (cs.child? .arguments) owner ctx) := by
    refine scanPart_declares h hlocal (fun c hc => ?_)
      (inCode_enter (by rw [hkind]; decide) (hkind ▸ rfl) v) fun c hc hagrees => ?_
    · rw [(kinds_of_constant h.shaped hkind).1 c hc]
      decide
    · refine hagrees.enter_plain ?_ (hkind ▸ rfl)
      simp [typeEntered?, hkind, isTypeDeclaration, role_of_child? hc]
  have hbody : DeclaresIn d σ.source (roleSpots d σ.source t v .body) v owner ctx
      (constantBody σ owner ctx (cs.child? .body)) := by
    cases hc : t.child? .body with
    | none =>
      have hnone : cs.child? .body = none := by simpa [hc] using h.child? .body
      rw [hnone, roleSpots, hc]
      exact .pure trivial
    | some body =>
      obtain ⟨collector, hcollector, hdeclaring⟩ := h.exists_child hc
      have hbodyKind := (kinds_of_constant h.shaped hkind).2 body hc
      rw [hcollector, roleSpots_eq hc, constantBody, if_pos hlocal]
      refine declareAnonymous_declares hdeclaring hbodyKind (.inr hkind) ?_ v _ owner ctx
      simp [typeEntered?, hkind, isTypeDeclaration, role_of_child? hc]
  have hboth : DeclaresIn d σ.source
    ([Role.arguments, Role.body].flatMap (roleSpots d σ.source t v)) v owner ctx (do
        scanPart σ (cs.child? .arguments) owner ctx
        constantBody σ owner ctx (cs.child? .body)) := by
    simpa using hargs.bind fun _ _ => hbody
  have hinner := Declares.of_roles (v := v) [.arguments, .body] h.shaped (by rw [hkind]; decide)
    (fun l hl => (constantPart_of_admits (hkind ▸ hl)).other) (constant_sublist h.shaped hkind v)
    hboth
  have hfield : Joins σ.source owner ctx (asMembers d σ.source ⟨t, v⟩) found
      (found.addField ⟨name.text σ.source, .qualified owner, true⟩) :=
    .of_other (by rw [hkind]; decide) (by rw [declaresMethod, hkind]; rfl) v rfl
  refine .of_inner (isDeclaration_of_kind (hkind ▸ rfl)) ?_
  have hall := hinner.map hfield
  unfold addConstant
  rw [htext]
  cases hc : cs.child? .body with
  | none =>
    rw [hc] at hall
    exact hall
  | some body =>
    rw [hc, constantBody, if_pos hlocal] at hall
    dsimp only
    rw [if_pos hlocal]
    exact hall

lemma asMembers_of_enum (hshaped : t.Shaped) (hkind : t.kind = .enumBodyDeclarations) (v : View) :
    asMembers d σ.source ⟨t, v⟩ = bodyMembers d σ.source ⟨t, v⟩ := by
  have hone : ∀ y ∈ children d σ.source ⟨t, v⟩, asMembers d σ.source y = [y] := by
    intro y hy
    obtain ⟨c, hc, rfl⟩ := mem_map.mp hy
    refine if_neg fun henum => ?_
    have henum : c.kind = .enumBodyDeclarations := eq_of_beq henum
    rcases hshaped.fits.admitted c hc with hremark | hadmits
    · have hcomment := hremark.kind
      rw [henum] at hcomment
      cases hcomment
    · have hmember : c.kind.isClassMember := by
        change t.kind = .enumBodyDeclarations at hkind
        rw [hkind] at hadmits
        exact hadmits
      rw [henum] at hmember
      cases hmember
  rw [asMembers, if_pos (by simp [hkind]), bodyMembers, flatMap_def,
    map_congr_left hone, ← flatMap_def]
  simp

lemma isDeclaration_of_bare (hshaped : t.Shaped) (hbare : t.kind.isBare) (v : View) :
    ∀ y ∈ spots d σ.source t v, y.isDeclaration = false :=
  fun _ hy => isDeclaration_of_plain hshaped (.inl hbare) hy

lemma isBare_of_member (hmember : isMember k) (htype : k.isTypeDeclaration = false)
    (hother : k ∉ [.fieldDeclaration, .constantDeclaration, .methodDeclaration,
      .constructorDeclaration, .compactConstructorDeclaration, .staticInitializer, .block,
      .annotationTypeElementDeclaration, .enumConstant, .enumBodyDeclarations]) :
    k.isBare := by
  revert hmember htype hother
  cases k <;> decide

lemma memberFrom_declares (h : DeclaringParts d σ t cs) (hlocal : σ.includeLocal)
    (hmember : Kind.isMember t.kind) (v : View) (owner : String) (kind : TypeKind) (ctx : Context)
    (found : Members) (hbody : v.inBody) :
    DeclaresMember d σ.source t v (Belongs d σ.source v v.path owner ctx) owner ctx found
      (memberFrom σ t cs owner kind ctx found) := by
  -- only for a member type it counts which class is around the body
  have hbelongs {x : Collect Members}
      (hx : DeclaresMember d σ.source t v (Agrees σ.source v owner ctx) owner ctx found x) :
      DeclaresMember d σ.source t v (Belongs d σ.source v v.path owner ctx) owner ctx found x :=
    hx.agree Belongs.toAgrees
  have hother {k : Kind} (hkind : t.kind = k) (hk : k ≠ .enumBodyDeclarations ∧
      List.contains [.methodDeclaration, .constructorDeclaration,
        .annotationTypeElementDeclaration] k = false) :
      Joins σ.source owner ctx (Spot.asMembers d σ.source ⟨t, v⟩) found found :=
    .of_other (by rw [hkind]; exact hk.1) (by rw [declaresMethod, hkind]; exact hk.2) v rfl
  unfold memberFrom
  split
  case h_1 hkind => exact hbelongs (addFields_declares h (.inl hkind) v owner kind ctx found)
  case h_2 hkind => exact hbelongs (addFields_declares h (.inr hkind) v owner kind ctx found)
  case h_3 hkind =>
    obtain ⟨name, hname⟩ := Tree.exists_child_of_kind h.shaped hkind .name
    obtain ⟨m, hm⟩ : ∃ m, methodOf? σ.source t ctx = some m := by
      simp [methodOf?, Tree.nameText?, hname]
    rw [hm]
    exact hbelongs (callable_declares h hlocal [.block] (hkind ▸ rfl) (by decide)
      (hkind ▸ rfl) (fun c hagrees => hagrees.enter_method hkind hname c) found
      (by rw [declaredMethod?, hkind]; exact hm))
  case h_4 hkind =>
    exact hbelongs (callable_declares h hlocal [.constructorBody] (hkind ▸ rfl)
      (by decide) (hkind ▸ rfl)
      (fun c hagrees => hagrees.enter_constructor (.inl hkind) c) found
      (by rw [declaredMethod?, hkind]))
  case h_5 hkind =>
    rw [if_pos hlocal]
    exact hbelongs ((compact_declares h hkind v owner ctx).map (hother hkind (by decide)))
  case h_6 hkind | h_7 hkind =>
    rw [if_pos hlocal]
    exact hbelongs ((scanFrom_declares h (hkind ▸ rfl) (hkind ▸ rfl) v
      (by rw [hkind]; intro h; cases h) owner ctx).map (hother hkind (by decide)))
  case h_8 hkind => exact hbelongs (element_declares h hkind v owner ctx found)
  case h_9 hkind => exact hbelongs (addConstant_declares h hlocal hkind v owner ctx found)
  case h_10 hkind =>
    have hholder : holderIn (t :: v.path) = holderIn v.path := by
      simp [holderIn, hkind, Kind.isTypeDeclaration]
    have hinner (h : Belongs d σ.source v v.path owner ctx) :
        Belongs d σ.source v (t :: v.path) owner ctx := ⟨h.toAgrees, hholder ▸ h.holder⟩
    rw [DeclaresMember, asMembers_of_enum h.shaped hkind]
    exact .of_inner (isDeclaration_of_kind (hkind ▸ rfl))
      ((membersFrom_declares h (hkind ▸ rfl) v owner kind ctx found).agree hinner)
  case h_11 hfield hconstant hmethod hconstructor hcompact hstatic hblock helement henum
      hdeclarations =>
    have hnone : Joins σ.source owner ctx (Spot.asMembers d σ.source ⟨t, v⟩) found found :=
      .of_other hdeclarations (by simpa [declaresMethod] using ⟨hmethod, hconstructor, helement⟩) v
        rfl
    split
    case isTrue htype =>
      obtain ⟨simple, hsimple, _⟩ := exists_nameText h.shaped htype σ.source
      rw [hsimple]
      have hone := declareType_declares h htype v (.member owner simple)
        (ne_empty_of_dollar owner simple) (fun _ => rfl) ctx
      refine (hone.agree fun hagrees => ⟨hagrees.context, ?_,
        ⟨(owner?_of_type htype).trans hagrees.owner, hagrees.holder⟩, hsimple⟩).map hnone
      simp [Spot.isMember, htype, hbody]
    case isFalse htype =>
      have hbare : t.kind.isBare := isBare_of_member hmember (by simpa using htype)
        (by simpa using ⟨hfield, hconstant, hmethod, hconstructor, hcompact, hstatic, hblock,
          helement, henum, hdeclarations⟩)
      exact hbelongs (.of_none (.pure hnone) (isDeclaration_of_bare h.shaped hbare v))

lemma declaring_ofTree (d : Declarations) (hlocal : σ.includeLocal) (hshaped : t.Shaped) :
    Declaring d σ t (ofTree σ t) := by
  induction t using induction with
  | step t ih =>
    have hcs : DeclaringParts d σ t (t.children.map fun c => (c, ofTree σ c)) := by
      refine ⟨hshaped, ?_, fun c hc => ?_⟩
      · rw [map_map]
        exact map_id _
      · obtain ⟨child, hchild, rfl⟩ := mem_map.mp hc
        exact ih child hchild (hshaped.parts child hchild)
    rw [ofTree, fold_eq]
    exact {
      declare := fun hkind v naming ctx hname hnumber =>
        declareType_declares hcs hkind v naming hname hnumber ctx
      members := fun hkind => membersFrom_declares hcs hkind
      member := fun hkind => memberFrom_declares hcs hlocal hkind
      value := fun hkind => value_declares hcs hlocal hkind
      scan := fun henclosed hcallable v owner ctx hcode =>
        scanFrom_declares hcs henclosed hcallable v (fun _ => hcode) owner ctx }

end

lemma starts_of_heads (d : Declarations) (source : List Char) (t : Tree) (v : View) :
    ((spots d source t v).filter isHead).map (fun s => s.tree.start) = t.heads := by
  induction t using induction generalizing v with
  | step t ih =>
    have hinner : ((innerSpots d source t v).filter isHead).map (fun s => s.tree.start) =
        t.children.flatMap heads := by
      rw [innerSpots, filter_flatMap, map_flatMap, flatMap_def, flatMap_def,
        map_congr_left fun c hc => ih c hc (v.enter d source t c)]
    rw [spots_cons, heads_eq, ← hinner, filter_cons]
    change List.map _ (if t.kind.isHeaded then _ else _) = _
    split <;> rfl

/-- The types that a unit declares, in the order in which they begin. -/
structure Enrolls (d : Declarations) (source : List Char) (unit : Tree) (entries : List Entry) :
    Prop where
  names : d.names = (entries.map Entry.key).reverse
  types : d.types.Perm (entries.map Entry.info)
  numbers : ∀ κ, numbersOf κ entries = List.range' 1 (numbersOf κ entries).length
  locals : d.localNames = putNames [] (localNamesOf entries)
  spots : (entries.map Entry.spot).Sublist
    ((spots d source unit (.ofUnit d)).filter Spot.isHead)
  /-- In the declarations of types there is no type that is not declared. -/
  complete : ∀ c ∈ unit.children, c.kind.isTypeDeclaration →
    ∀ x ∈ Reference.spots d source c ((View.ofUnit d).enter d source unit c), x.isDeclaration →
      x ∈ entries.map Entry.spot
  named : ∀ e ∈ entries, e.name ≠ ""
  faithful : ∀ e ∈ entries, e.Faithful d source

lemma knows_of_starts {names : List (Nat × String)} (hnames : d.names = names)
    (h : (names.map Prod.fst).Nodup) : Knows d names := by
  intro x hx
  obtain ⟨before, after, rfl⟩ := append_of_mem hx
  rw [hnames]
  refine lookup_eq_some_iff.mpr ⟨before, after, rfl, fun y hy => ?_⟩
  rw [map_append, nodup_append] at h
  have hne : y.1 ≠ x.1 := h.2.2 _ (mem_map_of_mem hy) _ (by simp)
  simpa using Ne.symm hne

lemma ne_empty_of_identifier {text : String} (h : isIdentifier text) : text ≠ "" := by
  intro hempty
  rw [hempty] at h
  cases h

lemma qualify_ne_empty (package : String) {simple : String} (h : simple ≠ "") :
    qualify package simple ≠ "" := by
  unfold qualify
  split
  · exact h
  · intro hempty
    have hlength := congrArg String.length hempty
    simp [String.length_append] at hlength

lemma nodup_starts {entries : List Entry} (hparse : parse? source = some unit)
    (hnames : d.names = (entries.map Entry.key).reverse)
    (hspots : (entries.map Entry.spot).Sublist ((spots d source unit (.ofUnit d)).filter isHead)) :
    (d.names.map Prod.fst).Nodup := by
  have hstarts := hspots.map fun s => s.tree.start
  rw [map_map, starts_of_heads] at hstarts
  rw [hnames, map_reverse, nodup_reverse, map_map]
  exact ((placed_of_parse hparse).2.imp fun h => Nat.ne_of_lt h).sublist hstarts

lemma exists_entries (hparse : parse? source = some unit) (σ : Collector.Setting)
    (hsource : σ.source = source) (hlocal : σ.includeLocal) :
    ∃ entries, Enrolls (.ofUnit σ unit) source unit entries := by
  subst hsource
  have hkind := kind_of_parse hparse
  have hshaped := shaped_of_parse hparse
  obtain ⟨d, hd⟩ : ∃ d, d = Declarations.ofUnit σ unit := ⟨_, rfl⟩
  rw [← hd]
  have hprogram (c : Tree) : typeEntered? d σ.source unit c = none := by
    simp [typeEntered?, hkind, isTypeDeclaration]
  have hcontext (c : Tree) : ((View.ofUnit d).enter d σ.source unit c).context =
      { package := packageOf σ.source unit, imports := importsOf σ.source unit } := by
    rw [(enter_of_none (hprogram c) _).1, declared_of_plain (hkind ▸ rfl), declaring_nil, hd]
    rfl
  have hitem (c : Tree) (hc : c ∈ unit.children) : Declares d σ.source
      (if c.kind.isTypeDeclaration then
        spots d σ.source c ((View.ofUnit d).enter d σ.source unit c) else [])
      True (fun _ => True) (declareItem σ (packageOf σ.source unit)
        { package := packageOf σ.source unit, imports := importsOf σ.source unit } c) := by
    unfold declareItem
    split
    case isFalse => exact .pure trivial
    case isTrue htype =>
      obtain ⟨simple, hsimple, hidentifier⟩ := exists_nameText (hshaped.parts c hc) htype σ.source
      rw [hsimple]
      refine ((declaring_ofTree d hlocal (hshaped.parts c hc)).declare htype _
        (.top (packageOf σ.source unit) simple) _ ?_ (fun _ => rfl)).agree fun _ =>
        ⟨⟨by rw [hcontext c], fun _ => (hcontext c).symm⟩, ?_,
          ⟨(enter_of_none (hprogram c) _).2, by rw [hcontext c]⟩, hsimple⟩
      · exact qualify_ne_empty _ (ne_empty_of_identifier hidentifier)
      · simp [isTop, htype, outer?, View.enter, hkind]
  obtain ⟨_, entries, h⟩ := Declares.forM hitem {}
  have hfound : (unit.children.forM (declareItem σ (packageOf σ.source unit)
      { package := packageOf σ.source unit, imports := importsOf σ.source unit }) {}).2 =
      foundIn σ (packageOf σ.source unit) (importsOf σ.source unit) unit := rfl
  rw [hfound] at h
  have hfoundNames : d.names =
      (foundIn σ (packageOf σ.source unit) (importsOf σ.source unit) unit).names := by
    rw [hd, ofUnit_eq]
  have hnames : d.names = (entries.map Entry.key).reverse := by
    rw [hfoundNames]
    simpa using h.names
  have htypes : d.types.Perm (entries.map Entry.info) := by
    obtain ⟨added, hadded, hperm⟩ := h.types
    rw [nil_append] at hadded
    rw [hd, ofUnit_eq]
    exact (List.Perm.of_eq hadded).trans hperm
  have hspots : (entries.map Entry.spot).Sublist
      ((spots d σ.source unit (.ofUnit d)).filter isHead) := by
    refine h.spots.trans (List.Sublist.filter _ ?_)
    rw [spots_cons]
    refine List.Sublist.cons _ ?_
    rw [← flatMap_filter_of_nil (p := fun c : Tree => c.kind.isTypeDeclaration) fun c _ hc =>
      if_neg (by simp [hc]), flatMap_def,
      map_congr_left fun c hc => if_pos (mem_filter.mp hc).2, ← flatMap_def]
    exact filter_sublist.flatMap _
  refine ⟨entries, hnames, htypes, fun κ => ?_, ?_, hspots, fun c hc htype x hx hdeclared => ?_,
    h.named, h.faithful (knows_of_starts hfoundNames ?_) trivial⟩
  · have hnumbers := (h.numbers κ).1
    rwa [show lastNumber {} κ = 0 by cases κ <;> rfl] at hnumbers
  · rw [hd, ofUnit_eq]
    exact h.locals
  · refine h.complete x (mem_flatMap.mpr ⟨c, hc, ?_⟩) hdeclared
    rwa [if_pos htype]
  · rw [← hfoundNames]
    exact nodup_starts hparse hnames hspots

lemma exists_entries_of_target (hparse : parse? source = some unit) (label : String) :
    ∃ entries, Enrolls (declarationsOf label source unit) source unit entries :=
  exists_entries hparse { source, origin := .target label, includeLocal := true } rfl rfl

end Xref.Reference
