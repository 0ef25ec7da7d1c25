import Xref.Declaration.Collect
import Xref.Proofs.Declaration.Display
import Xref.Proofs.Syntax.Twin

/-!
# Twins declare the same

What is collected from a tree and from its twin goes in step: the same types under the same names,
and each name at the place that corresponds. The same argument carries an invariant along a
collection.
-/
open List

namespace Xref.Declaration

open Java Syntax Text Tree

/-- From states that `R` relates both collections come to the same result, and to states that `R`
relates. -/
def Collect.InStep (R : Found → Found → Prop) {α : Type} (x y : Collect α) : Prop :=
  ∀ s s', R s s' → (y s').1 = (x s).1 ∧ R (x s).2 (y s').2

/-- The steps of a collection keep `R`. Types from one origin correspond to those from another. -/
structure Collect.Kept (π : Passage) (ω : Origin → Origin) (R : Found → Found → Prop) : Prop where
  addType : ∀ info, InStep R (addType info) (addType { info with origin := ω info.origin })
  addName : ∀ start name, InStep R (addName start name) (addName (π.start start) name)
  numberAnonymous : ∀ owner, InStep R (numberAnonymous owner) (numberAnonymous owner)
  numberLocal : ∀ owner simple, InStep R (numberLocal owner simple) (numberLocal owner simple)
  addLocalName : ∀ owner number simple : String,
    InStep R (addLocalName (owner ++ "$" ++ number ++ simple) simple)
      (addLocalName (owner ++ "$" ++ number ++ simple) simple)

variable {R : Found → Found → Prop} {π : Passage} {stand : Stand} {t t' unit : Tree}
  {ω : Origin → Origin} {σ : Collector.Setting}

namespace Collect.InStep

variable {α β γ δ : Type} {l : List γ} {l' : List δ} {S : γ → δ → Prop}

lemma pure (a : α) : InStep R (pure a : Collect α) (pure a) := fun _ _ hs => ⟨rfl, hs⟩

lemma bind {x y : Collect α} {f g : α → Collect β} (hx : InStep R x y)
    (hf : ∀ a, InStep R (f a) (g a)) : InStep R (x >>= f) (y >>= g) := by
  intro s s' hs
  obtain ⟨hresult, hs₁⟩ := hx s s' hs
  change (g (y s').1 (y s').2).1 = (f (x s).1 (x s).2).1 ∧
    R (f (x s).1 (x s).2).2 (g (y s').1 (y s').2).2
  rw [hresult]
  exact hf (x s).1 _ _ hs₁

lemma forM {f : γ → Collect Unit} {g : δ → Collect Unit} (h : List.Forall₂ S l l')
    (hf : ∀ a b, S a b → InStep R (f a) (g b)) : InStep R (l.forM f) (l'.forM g) := by
  induction h with
  | nil => exact .pure ()
  | cons hab _ ih => exact .bind (hf _ _ hab) fun _ => ih

lemma foldlM {f : α → γ → Collect α} {g : α → δ → Collect α} (h : List.Forall₂ S l l')
    (hf : ∀ a c d, S c d → InStep R (f a c) (g a d)) (a : α) :
    InStep R (l.foldlM f a) (l'.foldlM g a) := by
  induction h generalizing a with
  | nil => exact .pure a
  | cons hcd _ ih =>
    rw [foldlM_cons, foldlM_cons]
    exact .bind (hf a _ _ hcd) fun b => ih b

end Collect.InStep

open Collect (InStep)

structure Collector.Twin (R : Found → Found → Prop) (c c' : Collector) : Prop where
  declare : ∀ name ctx, InStep R (c.declare name ctx) (c'.declare name ctx)
  members : ∀ owner kind ctx found,
    InStep R (c.members owner kind ctx found) (c'.members owner kind ctx found)
  member : ∀ owner kind ctx found,
    InStep R (c.member owner kind ctx found) (c'.member owner kind ctx found)
  value : ∀ owner ctx, InStep R (c.value owner ctx) (c'.value owner ctx)
  scan : ∀ owner ctx, InStep R (c.scan owner ctx) (c'.scan owner ctx)

structure Collector.IsSilent (c : Collector) : Prop where
  member : ∀ owner kind ctx found, c.member owner kind ctx found = pure found
  scan : ∀ owner ctx, c.scan owner ctx = pure ()

/-- Twins that begin at places that correspond, with the collectors of their parts. -/
structure CollectedParts (R : Found → Found → Prop) (π : Passage) (stand : Stand) (t t' : Tree)
    (cs cs' : Valued Collector) : Prop extends
    Valued.Twins π stand (fun c c' => c.2.Twin R c'.2) t t' cs cs' where
  start : t'.start = π.start t.start
  silent : ∀ c ∈ cs, c.1.kind.isComment → c.2.IsSilent
  silent' : ∀ c ∈ cs', c.1.kind.isComment → c.2.IsSilent

section

variable {ps ps' : List Parameter}

lemma declaredRef_of_twin {type type' : Tree} (htype : Tree.TwinType π type type')
    (h : Tree.Twin π stand t t') (ctx : Context) :
    declaredRef π.source' type' t' ctx = declaredRef π.source type t ctx := by
  rw [declaredRef, declaredRef, htype.erased, h.countDims]

section

variable (h : Tree.Twin π stand t t')
include h

lemma methodContext_of_twin (ctx : Context) :
    methodContext π.source' t' ctx = methodContext π.source t ctx := by
  rw [methodContext, methodContext, h.typeParameters]

lemma elementOf_of_twin (ctx : Context) :
    elementOf? π.source' t' ctx = elementOf? π.source t ctx := by
  simp only [elementOf?, h.nameText]
  refine rel_elim h.declaredType ?_ fun type type' htype => ?_
  · simp only [Option.bind_eq_bind, Option.bind_none]
  · simp only [Option.bind_eq_bind, Option.bind_some, declaredRef_of_twin htype h]

lemma interfaceTrees_of_twin :
    List.Forall₂ (Tree.TwinType π) (interfaceTrees t) (interfaceTrees t') := by
  unfold interfaceTrees
  rw [h.kind]
  split
  · exact h.clauseOf rfl
  · exact h.clause .interfaces

end

section

variable (h : List.Forall₂ (Tree.TwinParameter π) ps ps')
include h

lemma paramRefs_of_twin (ctx : Context) : paramRefs ps' ctx = paramRefs ps ctx :=
  map_eq_of_rel h fun _ _ hp => by rw [hp.type]

lemma hasVarargs_of_twin : hasVarargs ps' = hasVarargs ps :=
  any_eq_of_rel h fun _ _ hp => hp.isVarargs

lemma addComponents_of_twin (simple : String) (ctx : Context) (members : Members) :
    addComponents ps' simple ctx members = addComponents ps simple ctx members := by
  simp only [addComponents, paramRefs_of_twin h, hasVarargs_of_twin h, h.length_eq]
  rw [foldl_eq_of_rel h fun m c c' hc => by rw [hc.name, hc.type]]

end

section

variable (h : Tree.Twin π stand t t')
include h

lemma methodOf_of_twin (ctx : Context) : methodOf? π.source' t' ctx = methodOf? π.source t ctx := by
  have htype := map_eq_of_optionRel h.typeIn fun type type' htype =>
    declaredRef_of_twin htype h (methodContext π.source t ctx)
  simp only [methodOf?, h.nameText, methodContext_of_twin h, paramRefs_of_twin h.parameters,
    hasVarargs_of_twin h.parameters, h.hasModifier, htype]

lemma constructorOf_of_twin (owner : String) (ctx : Context) :
    constructorOf π.source' t' owner ctx = constructorOf π.source t owner ctx := by
  simp only [constructorOf, paramRefs_of_twin h.parameters, hasVarargs_of_twin h.parameters]

lemma addImplicit_of_twin (kind : TypeKind) (name : String) (ctx : Context) (members : Members) :
    addImplicit kind name (t'.parameters π.source') ctx members =
      addImplicit kind name (t.parameters π.source) ctx members := by
  unfold addImplicit
  split
  · exact addComponents_of_twin h.parameters _ ctx members
  · rfl
  · rfl
  · rfl

end

end

/-- Settings in which twins declare the same. -/
structure Collector.Setting.Twin (π : Passage) (ω : Origin → Origin) (σ σ' : Collector.Setting) :
    Prop where
  source : σ.source = π.source
  source' : σ'.source = π.source'
  origin : σ'.origin = ω σ.origin
  includeLocal : σ'.includeLocal = σ.includeLocal

namespace Collector

variable {cs cs' : Valued Collector} {σ σ' : Collector.Setting}

lemma scanPart_twin (hσ : σ.Twin π ω σ') {part part' : Option (Tree × Collector)}
    (h : Option.Rel (fun c c' => c.2.Twin R c'.2) part part') (owner : String) (ctx : Context) :
    InStep R (scanPart σ part owner ctx) (scanPart σ' part' owner ctx) := by
  cases h with
  | none => exact .pure ()
  | some hc =>
    unfold scanPart
    dsimp only
    rw [hσ.includeLocal]
    split
    · exact hc.scan owner ctx
    · exact .pure ()

section

variable (h : CollectedParts R π stand t t' cs cs')
include h

lemma childIn (r : Role) : Option.Rel (fun c c' => c.2.Twin R c'.2) (cs.child? r) (cs'.child? r) :=
  optionRel_imp (h.child r) fun _ _ hc => hc.1.2

lemma membersFrom_twin (owner : String) (kind : TypeKind) (ctx : Context) (found : Members) :
    InStep R (membersFrom cs owner kind ctx found) (membersFrom cs' owner kind ctx found) := by
  have hclean {cs : Valued Collector} (hsilent : ∀ c ∈ cs, c.1.kind.isComment → c.2.IsSilent) :
      membersFrom cs owner kind ctx found =
        cs.named.clean.foldlM (fun found c => c.2.member owner kind ctx found) found := by
    refine (foldlM_filter (fun c hc hcomment found => ?_) found).symm
    have hmem : c ∈ cs := (mem_filter.mp hc).1
    exact (hsilent c hmem (by simpa using hcomment)).member owner kind ctx found
  rw [hclean h.silent, hclean h.silent']
  exact .foldlM h.named (fun found c c' hc => hc.2.member owner kind ctx found) found

lemma scanNamed_twin {p : Kind → Bool} (owner : String) (ctx : Context) :
    InStep R ((cs.named.filter fun c => p c.1.kind).forM fun c => c.2.scan owner ctx)
      ((cs'.named.filter fun c => p c.1.kind).forM fun c => c.2.scan owner ctx) := by
  rw [Valued.forM_clean fun c hc hcomment => (h.silent c hc hcomment).scan owner ctx,
    Valued.forM_clean fun c hc hcomment => (h.silent' c hc hcomment).scan owner ctx]
  refine .forM (filter_rel h.named fun c c' hc => ?_) fun c c' hc => hc.1.2.scan owner ctx
  rw [hc.1.twin.kind]

end

lemma declareType_twin (hR : Collect.Kept π ω R) (hσ : σ.Twin π ω σ')
    (h : CollectedParts R π stand t t' cs cs') (name : String) (outer : Context) :
    InStep R (declareType σ t cs name outer) (declareType σ' t' cs' name outer) := by
  have hsuper := map_eq_of_optionRel (head?_rel (h.twin.clause .superclass))
    fun type type' htype => congrArg
      (writtenRef · (outer.declaring (t.typeParameters π.source))) htype.erased
  have hinterfaces := map_eq_of_rel (interfaceTrees_of_twin h.twin) fun type type' htype => congrArg
      (writtenRef · (outer.declaring (t.typeParameters π.source))) htype.erased
  unfold declareType superclassTree?
  rw [h.start, h.twin.kind, hσ.source, hσ.source', hσ.origin, h.twin.typeParameters]
  refine .bind (hR.addName t.start name) fun _ => ?_
  simp only [addImplicit_of_twin h.twin, hsuper, hinterfaces]
  refine rel_elim (childIn h .body) ?_ fun c c' hbody => ?_
  · exact .bind (.pure ({} : Members)) fun members => hR.addType _
  · exact .bind (hbody.members name _ _ {}) fun members => hR.addType _

lemma declareAnonymous_twin (hR : Collect.Kept π ω R) (hσ : σ.Twin π ω σ')
    {body body' : Tree × Collector} (hstart : body'.1.start = π.start body.1.start)
    (h : body.2.Twin R body'.2) (supertype : TypeRef) (owner : String) (outer : Context) :
    InStep R (declareAnonymous σ body supertype owner outer)
      (declareAnonymous σ' body' supertype owner outer) := by
  unfold declareAnonymous
  rw [hstart, hσ.origin]
  exact .bind (hR.numberAnonymous owner) fun number => .bind (hR.addName _ _) fun _ =>
    .bind (h.members _ _ _ _) fun members => hR.addType _

lemma addFields_twin (hσ : σ.Twin π ω σ') (h : CollectedParts R π stand t t' cs cs')
    (owner : String) (kind : TypeKind) (ctx : Context) (members : Members) :
    InStep R (addFields σ t cs owner kind ctx members)
      (addFields σ' t' cs' owner kind ctx members) := by
  unfold addFields
  refine rel_elim h.twin.declaredType (.pure members) fun type type' htype => ?_
  simp only [hσ.source, hσ.source', h.twin.kind, h.twin.hasModifier]
  refine .foldlM (h.childrenIn .declarator) (fun found d d' hd => ?_) members
  simp only [hd.1.1.twin.nameText]
  cases d.1.nameText? π.source with
  | none => exact .pure found
  | some name =>
    simp only [declaredRef_of_twin htype hd.1.1.twin]
    exact .bind (hd.1.2.value owner ctx) fun _ => .pure _

section

variable (hR : Collect.Kept π ω R) (hσ : σ.Twin π ω σ') (h : CollectedParts R π stand t t' cs cs')
  (owner : String) (ctx : Context)
include hR hσ h owner ctx

lemma declareLocal_twin :
    InStep R (declareLocal σ t cs owner ctx) (declareLocal σ' t' cs' owner ctx) := by
  unfold declareLocal
  rw [hσ.source, hσ.source', h.twin.nameText]
  cases t.nameText? π.source with
  | none => exact .pure ()
  | some simple =>
    exact .bind (hR.numberLocal owner simple) fun number =>
      .bind (hR.addLocalName owner (toString number) simple) fun _ => declareType_twin hR hσ h _ ctx

lemma scanCreation_twin :
    InStep R (scanCreation σ t cs owner ctx) (scanCreation σ' t' cs' owner ctx) := by
  refine .bind (scanNamed_twin h (p := fun k => k != .classBody) owner ctx) fun _ => ?_
  refine rel_elim (h.childOf (k := .classBody) rfl) (.pure ()) fun c c' hbody => ?_
  refine rel_elim h.twin.typeIn (.pure ()) fun type type' htype => ?_
  simp only [hσ.source, hσ.source', htype.erased]
  exact declareAnonymous_twin hR hσ hbody.1.1.start hbody.1.2 _ owner ctx

lemma scanFrom_twin : InStep R (scanFrom σ t cs owner ctx) (scanFrom σ' t' cs' owner ctx) := by
  have hnamed := scanNamed_twin h (p := fun _ => true) owner ctx
  simp only [filter_true] at hnamed
  unfold scanFrom
  rw [h.twin.kind]
  split
  · exact scanCreation_twin hR hσ h owner ctx
  · split
    · exact declareLocal_twin hR hσ h owner ctx
    · exact hnamed

lemma addConstant_twin (members : Members) :
    InStep R (addConstant σ t cs owner ctx members) (addConstant σ' t' cs' owner ctx members) := by
  unfold addConstant
  rw [hσ.source, hσ.source', h.twin.nameText]
  cases t.nameText? π.source with
  | none => exact .pure members
  | some name =>
    refine .bind (scanPart_twin hσ (childIn h .arguments) owner ctx) fun _ => ?_
    refine rel_elim (h.child .body) (.pure _) fun c c' hbody => ?_
    simp only [hσ.includeLocal]
    split
    · exact .bind (declareAnonymous_twin hR hσ hbody.1.1.start hbody.1.2 _ owner ctx) fun _ =>
        .pure _
    · exact .pure _

lemma memberFrom_twin (kind : TypeKind) (members : Members) :
    InStep R (memberFrom σ t cs owner kind ctx members)
      (memberFrom σ' t' cs' owner kind ctx members) := by
  unfold memberFrom
  rw [h.twin.kind, hσ.source, hσ.source', hσ.includeLocal]
  split
  · exact addFields_twin hσ h owner kind ctx members
  · exact addFields_twin hσ h owner kind ctx members
  · rw [methodOf_of_twin h.twin, methodContext_of_twin h.twin]
    split
    · exact .pure members
    · exact .bind (scanPart_twin hσ (childIn h .body) owner _) fun _ => .pure _
  · rw [constructorOf_of_twin h.twin]
    exact .bind (scanPart_twin hσ (childIn h .body) owner ctx) fun _ => .pure _
  iterate 3
    · split
      · exact .bind (scanFrom_twin hR hσ h owner ctx) fun _ => .pure members
      · exact .pure members
  · rw [elementOf_of_twin h.twin]
    exact .pure _
  · exact addConstant_twin hR hσ h owner ctx members
  · exact membersFrom_twin h owner kind ctx members
  · rw [h.twin.nameText]
    split
    · split
      · exact .bind (declareType_twin hR hσ h _ ctx) fun _ => .pure members
      · exact .pure members
    · exact .pure members

end

lemma isSilent_ofTree (σ : Collector.Setting) {c : Tree} (h : c.kind.isComment)
    (haside : c.IsAside) : (ofTree σ c).IsSilent := by
  cases c with
  | node => cases haside.leaf
  | leaf role kind range text =>
    obtain rfl | rfl := Kind.isComment_cases (k := kind) h
    · exact ⟨fun _ _ _ _ => rfl, fun _ _ => rfl⟩
    · exact ⟨fun _ _ _ _ => rfl, fun _ _ => rfl⟩

lemma ofTree_twin (hR : Collect.Kept π ω R) (hσ : σ.Twin π ω σ') (h : Tree.Twin π stand t t')
    (hstart : t'.start = π.start t.start) : (ofTree σ t).Twin R (ofTree σ' t') := by
  revert hstart
  refine Tree.Twin.induction (motive := fun _ t t' => t'.start = π.start t.start →
    (ofTree σ t).Twin R (ofTree σ' t')) ?_ h
  intro stand t t' h hparts hstart
  have htrees (τ : Collector.Setting) (t : Tree) :
      (t.children.map fun c => (c, ofTree τ c)).map Prod.fst = t.children := by
    rw [map_map]
    exact map_id _
  have hmap (τ : Collector.Setting) (t : Tree) :
      Valued.clean (t.children.map fun c => (c, ofTree τ c)) =
        t.clean.map fun c => (c, ofTree τ c) := by
    rw [Valued.clean, filter_map]
    rfl
  have hcs : CollectedParts R π stand t t' (t.children.map fun c => (c, ofTree σ c))
      (t'.children.map fun c => (c, ofTree σ' c)) := by
    refine ⟨⟨h, htrees σ t, htrees σ' t', ?_⟩, hstart, ?_, ?_⟩
    · rw [hmap, hmap, forall₂_map_left_iff, forall₂_map_right_iff]
      exact hparts.imp fun c c' hc => ⟨hc.1, hc.2 hc.1.start⟩
    · simp only [forall_mem_map]
      exact fun c hc hcomment => isSilent_ofTree σ hcomment (h.aside.1 c hc hcomment)
    · simp only [forall_mem_map]
      exact fun c hc hcomment => isSilent_ofTree σ' hcomment (h.aside.2 c hc hcomment)
  rw [ofTree, ofTree, fold_eq, fold_eq]
  exact ⟨declareType_twin hR hσ hcs, membersFrom_twin hcs,
    fun owner kind ctx => memberFrom_twin hR hσ hcs owner ctx kind,
    scanPart_twin hσ (childIn hcs .value), scanFrom_twin hR hσ hcs⟩

end Collector

section

lemma packageOf_clean (source : List Char) (t : Tree) : packageOf source t =
    t.clean.foldl (fun package c =>
      if c.kind == .packageDeclaration then
        match c.children.find? fun x => [.identifier, .scopedIdentifier].contains x.kind with
        | some name => name.dottedName source
        | none => package else package) "" := by
  rw [clean, foldl_filter, packageOf]
  refine congrArg (List.foldl · "" t.children) (funext fun package => funext fun c => ?_)
  cases hcomment : c.kind.isComment with
  | false => rfl
  | true =>
    have hkind : (c.kind == .packageDeclaration) = false :=
      Kind.not_of_comment (p := (· == .packageDeclaration)) hcomment
    simp [hkind]

section

variable (h : Tree.Twin π stand t t')
include h

lemma qualifiedName_of_twin :
    Option.Rel (fun c c' => c'.dottedName π.source' = c.dottedName π.source)
      (t.children.find? fun c => [.identifier, .scopedIdentifier].contains c.kind)
      (t'.children.find? fun c => [.identifier, .scopedIdentifier].contains c.kind) := by
  have hname := h.childOfKinds (p := fun k => [.identifier, .scopedIdentifier].contains k)
  refine optionRel_imp hname fun c c' hc => Tree.Twin.dottedName ?_
  refine hc.1.text (isRead_of_kind ?_)
  have hmem := hc.2
  revert hmem
  cases c.kind <;> decide

lemma importOf_of_twin : importOf? π.source' t' = importOf? π.source t := by
  have hasterisk := any_eq_of_rel h.parts (p := fun c => c.kind == .asterisk)
    (q := fun c => c.kind == .asterisk) fun c c' hc => by rw [hc.twin.kind]
  have hcomment (c : Tree) (hc : c.kind.isComment) : (c.kind == .asterisk) = false :=
    beq_eq_false_iff_ne.mpr fun hkind => by rw [hkind] at hc; cases hc
  refine map_eq_of_optionRel (qualifiedName_of_twin h) fun c c' hname => ?_
  rw [any_clean hcomment, any_clean hcomment, hasterisk, h.any_isLiteral, hname]

lemma packageOf_of_twin : packageOf π.source' t' = packageOf π.source t := by
  rw [packageOf_clean, packageOf_clean]
  refine foldl_eq_of_rel h.parts (fun package c c' hc => ?_) ""
  rw [hc.twin.kind]
  split
  · refine rel_elim (qualifiedName_of_twin hc.twin) rfl fun _ _ hname => ?_
    simp only [hname]
  · rfl

lemma importsOf_of_twin : importsOf π.source' t' = importsOf π.source t := by
  have himports := h.childrenOfKinds (p := fun k => k == .importDeclaration)
  exact filterMap_eq_of_rel himports fun c c' hc => importOf_of_twin hc.1.twin

end

def declareItem (σ : Collector.Setting) (package : String) (ctx : Context) (c : Tree) :
    Collect Unit := do
  if c.kind.isTypeDeclaration then
    if let some name := c.nameText? σ.source then
      (Collector.ofTree σ c).declare (qualify package name) ctx

def foundIn (σ : Collector.Setting) (package : String) (imports : List Import) (unit : Tree) :
    Found :=
  (unit.children.forM (declareItem σ package { package := package, imports := imports }) {}).2

lemma ofUnit_eq (σ : Collector.Setting) (unit : Tree) : Declarations.ofUnit σ unit =
    let package := packageOf σ.source unit
      let imports := importsOf σ.source unit
      let found := foundIn σ package imports unit
      ⟨package, imports, found.types, found.names, found.localNames⟩ := rfl

lemma declareItem_twin (hR : Collect.Kept π ω R) {σ σ' : Collector.Setting} (hσ : σ.Twin π ω σ')
    (h : Tree.Twin π stand t t') (hstart : t'.start = π.start t.start) (package : String)
    (ctx : Context) : InStep R (declareItem σ package ctx t) (declareItem σ' package ctx t') := by
  unfold declareItem
  rw [h.kind, hσ.source, hσ.source', h.nameText]
  split
  · split
    · exact (Collector.ofTree_twin hR hσ h hstart).declare _ ctx
    · exact .pure ()
  · exact .pure ()

lemma declareItem_of_comment (σ : Collector.Setting) (package : String) (ctx : Context) {c : Tree}
    (h : c.kind.isComment) : declareItem σ package ctx c = pure () := by
  have hkind : c.kind.isTypeDeclaration = false := by
    revert h
    cases c.kind <;> decide
  simp [declareItem, hkind]

lemma foundIn_twin (hR : Collect.Kept π ω R) (hempty : R {} {}) {σ σ' : Collector.Setting}
    (hσ : σ.Twin π ω σ') (h : Tree.Twin π stand t t') (package : String) (imports : List Import) :
    R (foundIn σ package imports t) (foundIn σ' package imports t') := by
  have hclean (τ : Collector.Setting) (ctx : Context) (t : Tree) :
      t.clean.forM (declareItem τ package ctx) = t.children.forM (declareItem τ package ctx) :=
    forM_filter fun c _ hcomment => declareItem_of_comment τ package ctx (by simpa using hcomment)
  have hstep := Collect.InStep.forM h.parts fun c c' hc =>
    declareItem_twin hR hσ hc.twin hc.start package { package := package, imports := imports }
  rw [hclean, hclean] at hstep
  exact (hstep {} {} hempty).2

def Found.moved (π : Passage) (s : Found) : Found :=
  { s with names := s.names.map fun x => (π.start x.1, x.2) }

lemma kept_moved (π : Passage) : Collect.Kept π id fun s s' => s' = s.moved π where
  addType info := by rintro s _ rfl; exact ⟨rfl, rfl⟩
  addName start name := by rintro s _ rfl; exact ⟨rfl, rfl⟩
  numberAnonymous owner := by rintro s _ rfl; exact ⟨rfl, rfl⟩
  numberLocal owner simple := by rintro s _ rfl; exact ⟨rfl, rfl⟩
  addLocalName owner number simple := by rintro s _ rfl; exact ⟨rfl, rfl⟩

lemma lookup_moved (π : Passage) (names : List (Nat × String)) (start : Nat) :
    (names.map fun x => (π.start x.1, x.2)).lookup (π.start start) = names.lookup start := by
  induction names with
  | nil => rfl
  | cons x names ih =>
    rw [map_cons, lookup_cons, lookup_cons, ih]
    by_cases hx : start = x.1
    · simp [hx]
    · have hmoved : π.start start ≠ π.start x.1 := fun h => hx (π.start_inj h)
      simp [beq_eq_false_iff_ne.mpr hx, beq_eq_false_iff_ne.mpr hmoved]

lemma LocalNames.Proper.add {names : LocalNames} (h : names.Proper) (owner number simple : String) :
    LocalNames.Proper ((names.filter fun x => x.1 != owner ++ "$" ++ number ++ simple) ++
      [(owner ++ "$" ++ number ++ simple, simple)]) := by
  refine ⟨?_, fun a ha => ?_⟩
  · rw [map_append, nodup_append]
    refine ⟨h.nodup.sublist (filter_sublist.map _), nodup_singleton _, ?_⟩
    intro a ha b hb heq
    obtain ⟨x, hx, rfl⟩ := mem_map.mp ha
    obtain rfl : b = owner ++ "$" ++ number ++ simple := by simpa using hb
    simpa [heq] using (mem_filter.mp hx).2
  · rcases mem_append.mp ha with ha | ha
    · exact h.ends a (mem_filter.mp ha).1
    · obtain rfl := mem_singleton.mp ha
      exact ⟨owner.toList ++ ['$'] ++ number.toList, by simp, by simp⟩

lemma kept_proper (source : List Char) :
    Collect.Kept (.refl source) id fun s s' => s' = s ∧ s.localNames.Proper where
  addType info := by rintro s _ ⟨rfl, h⟩; exact ⟨rfl, rfl, h⟩
  addName start name := by rintro s _ ⟨rfl, h⟩; exact ⟨rfl, rfl, h⟩
  numberAnonymous owner := by rintro s _ ⟨rfl, h⟩; exact ⟨rfl, rfl, h⟩
  numberLocal owner simple := by rintro s _ ⟨rfl, h⟩; exact ⟨rfl, rfl, h⟩
  addLocalName owner number simple := by
    rintro s _ ⟨rfl, h⟩
    exact ⟨rfl, rfl, h.add owner number simple⟩

end

lemma ofUnit_twin {unit' : Tree} {σ' : Collector.Setting} (hσ : σ.Twin π id σ')
    (h : Tree.Twin π stand unit unit') :
    Declarations.ofUnit σ' unit' = { Declarations.ofUnit σ unit with
      names := (Declarations.ofUnit σ unit).names.map fun x => (π.start x.1, x.2) } := by
  have hfound := foundIn_twin (kept_moved π) rfl hσ h (packageOf π.source unit)
    (importsOf π.source unit)
  simp only [ofUnit_eq, hσ.source, hσ.source', packageOf_of_twin h, importsOf_of_twin h, hfound,
    Found.moved]

lemma proper_ofUnit (h : Tree.Twin (.refl σ.source) stand unit unit) :
    (Declarations.ofUnit σ unit).localNames.Proper := by
  have hempty : LocalNames.Proper [] := ⟨nodup_nil, fun a ha => by cases ha⟩
  exact (foundIn_twin (kept_proper σ.source) ⟨rfl, hempty⟩ ⟨rfl, rfl, rfl, rfl⟩ h _ _).2

end Xref.Declaration

