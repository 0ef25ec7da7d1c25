import Xref.Proofs.Declaration.Collecting
import Xref.Proofs.Reference.Coverage
import Xref.Proofs.Reference.InStepCall

/-!
# Twins make the same references

Each form of syntax makes its references in step with its twin, if its parts do.
-/
open List

namespace Xref.Reference

open Declaration Java Resolve Syntax Text Walk Tree

namespace InStep

variable {π : Pairing} {stand : Stand} {t t' : Tree} {cs cs' : Sense}
variable {params params' : List (Parameter × TypeName)}

lemma zip_rel {α β γ δ : Type} {R : α → β → Prop} {S : γ → δ → Prop} {as : List α} {bs : List β}
    {cs : List γ} {ds : List δ} (h : List.Forall₂ R as bs) (h' : List.Forall₂ S cs ds) :
    List.Forall₂ (fun a b => R a.1 b.1 ∧ S a.2 b.2) (as.zip cs) (bs.zip ds) := by
  induction h generalizing cs ds with
  | nil => exact .nil
  | cons hab _ ih =>
    cases h' with
    | nil => exact .nil
    | cons hcd h' => exact .cons ⟨hab, hcd⟩ (ih h')

section

variable (h : PairedParts π stand t t' cs cs')
include h

lemma visitNamed : InStep π Eq (cs.named.forM fun c => c.2.value.visit)
    (cs'.named.forM fun c => c.2.value.visit) := by
  have hvisit := h.forM (p := fun _ => true) (fun _ _ _ => rfl)
    (f := fun c => c.2.value.visit) (g := fun c => c.2.value.visit)
    (fun _ _ _ hc => hc.meaning.visit) (fun _ hc _ => hc.visit) fun _ hc _ => hc.visit
  simpa only [filter_true] using hvisit

lemma visitAll : InStep π Eq (visitAll t cs) (visitAll t' cs') :=
  .inside ⟨_, h.twin⟩ (.visitNamed h)

lemma visitIn (r : Role) : InStep π Eq (Walk.visitIn t cs r) (Walk.visitIn t' cs' r) := by
  unfold Walk.visitIn
  exact rel_elim (h.child r) (.done ()) fun c c' hpart =>
    .inside ⟨_, h.twin⟩ hpart.1.2.meaning.visit

end

lemma visitInside (ht : IsTwin π t t') {part part' : Option SensePart}
    (h : Option.Rel (fun c c' => ∃ stand, Paired π stand c c') part part') :
    InStep π Eq (visitInside t part) (visitInside t' part') := by
  cases h with
  | none => exact .done ()
  | some hc =>
    obtain ⟨_, hc⟩ := hc
    exact .inside ht (.visitAll hc.inner)

lemma visitInsideIn (h : PairedParts π stand t t' cs cs') (r : Role) :
    InStep π Eq (Walk.visitInside t (cs.child? r)) (Walk.visitInside t' (cs'.child? r)) :=
  .visitInside ⟨_, h.twin⟩ (optionRel_imp (h.child r) fun _ _ hc => ⟨_, hc.1.2⟩)

lemma visitModifiers (h : PairedParts π stand t t' cs cs') :
    InStep π Eq (visitModifiers t cs) (visitModifiers t' cs') :=
  .visitInside ⟨_, h.twin⟩ (optionRel_imp (h.childOf rfl) fun _ _ hc => ⟨_, hc.1.2⟩)

lemma visitImport (h : Tree.Twin π stand t t') : InStep π Eq (visitImport t) (visitImport t') := by
  have hname := h.childOfKinds (p := fun k => [.identifier, .scopedIdentifier].contains k)
  refine .setting fun st st' hst => ?_
  rw [hst.source, hst.source', importOf_of_twin h]
  cases importOf? π.source t with
  | none => exact .done ()
  | some i =>
    exact rel_elim hname (.done ()) fun c c' hpart =>
      .andThen (.of (.importName i)) fun name => .emitAt _ name ⟨_, hpart.1.twin⟩

lemma isLocalPlace : InStep π Eq isLocalPlace isLocalPlace := by
  refine .path fun q q' hq => .pure ?_
  cases hq with
  | nil => rfl
  | cons ht _ =>
    obtain ⟨_, ht⟩ := ht
    simp only [head?_cons, Option.any_some, ht.kind]

lemma emitSupertypes (kind : TypeKind) (isExtends : Bool) {clause clause' : Option Tree}
    (h : List.Forall₂ (Tree.TwinType π) (typesOf clause) (typesOf clause')) :
    InStep π Eq (emitSupertypes kind isExtends clause) (emitSupertypes kind isExtends clause') :=
  .forM h fun _ _ htype =>
    .andThen (.typeNameAt htype.erased 0) fun name => .emitAt _ name htype.nameOfType

lemma forM_clean (cs : Sense) {f : SensePart → Walk Unit}
    (hf : ∀ c : SensePart, c.1.kind.isComment → f c = Pure.pure ()) : cs.clean.forM f = cs.forM f :=
  forM_filter fun c _ hc => hf c (by simpa using hc)

lemma bindLocalType (name : String) : InStep π Eq (bindLocalType name) (bindLocalType name) :=
  .andThen .isLocalPlace fun _ => .ite .rfl (.declare _) (.done ())

lemma visitAnonymousBody (ht : IsTwin π t t') {body body' : SensePart}
    (h : Paired π stand body body') (hstart : body'.1.start = π.start body.1.start) :
    InStep π Eq (visitAnonymousBody t body) (visitAnonymousBody t' body') := by
  have hinside := visitInside ht (.some ⟨stand, h⟩)
  refine .andThen (.unitName hstart) fun found => ?_
  cases found with
  | none => exact hinside
  | some name => exact .insideType name [] hinside

section

variable (h : PairedParts π stand t t' cs cs')
include h

lemma visitComponents : InStep π Eq (visitComponents t cs) (visitComponents t' cs') := by
  refine .setting fun st st' hst => ?_
  rw [hst.source, hst.source']
  refine rel_elim (h.child .parameters) (.done ()) fun c c' hlist => ?_
  dsimp only
  rw [← forM_clean c.2.parts fun p hp => by simp only [parameter_of_comment _ _ hp],
    ← forM_clean c'.2.parts fun p hp => by simp only [parameter_of_comment _ _ hp]]
  refine .forM hlist.1.2.inner.parts fun p p' hp => ?_
  refine rel_elim hp.1.twin.parameter (.done ()) fun q q' hparam => ?_
  simp only [hparam.type]
  exact .andThen (.of (.typeName _)) fun name => .andThen (.emitAt _ name ⟨_, hp.1.twin⟩) fun _ =>
    .inside ⟨_, h.twin⟩ (.inside ⟨_, hlist.1.1.twin⟩ (.visitModifiers hp.2.inner))

lemma visitTypeDeclaration (hstart : t'.start = π.start t.start) (kind : TypeKind) :
    InStep π Eq (Walk.visitTypeDeclaration t cs kind) (Walk.visitTypeDeclaration t' cs' kind) := by
  refine .andThen (.unitName hstart) fun found => ?_
  cases found with
  | none => exact .visitAll h
  | some name =>
    refine .andThen (.bindLocalType name) fun _ =>
      .andThen (.emitAt _ _ ⟨_, h.twin⟩) fun _ => .andThen (.visitModifiers h) fun _ =>
        .setting fun st st' hst => ?_
    rw [hst.source, hst.source', h.twin.typeParameters]
    refine .andThen (.withVariables _ ?_) fun _ => .insideType name _ ?_
    · exact .andThen (.emitSupertypes kind true (h.twin.clause .superclass)) fun _ =>
        .andThen (.emitSupertypes kind true (h.twin.clauseOf rfl)) fun _ =>
          .emitSupertypes kind false (h.twin.clause .interfaces)
    · exact .ite .rfl (.andThen (.visitComponents h) fun _ => .visitInsideIn h .body)
        (.visitInsideIn h .body)

lemma visitEnumConstant :
    InStep π Eq (Walk.visitEnumConstant t cs) (Walk.visitEnumConstant t' cs') := by
  refine .andThen (.visitModifiers h) fun _ => .andThen (.visitInsideIn h .arguments) fun _ => ?_
  exact rel_elim (h.child .body) (.done ()) fun c c' hbody =>
    .visitAnonymousBody ⟨_, h.twin⟩ hbody.1.2 hbody.1.1.start

end

lemma emitThrows (h : Tree.Twin π stand t t') :
    InStep π Eq (Walk.emitThrows t) (Walk.emitThrows t') := by
  unfold Walk.emitThrows
  exact rel_elim (h.childOf (k := .throwsClause) rfl) (.done ()) fun c c' hclause =>
    .forM hclause.1.twin.typesAmong fun _ _ htype =>
      .andThen (.typeNameAt htype.erased 0) fun name => .emitAt _ name htype.nameOfType

def TwinTyped (π : Passage) (p p' : Parameter × TypeName) : Prop :=
  Tree.TwinParameter π p.1 p'.1 ∧ p'.2 = p.2

lemma map_snd_of_typed (h : List.Forall₂ (TwinTyped π) params params') :
    params'.map Prod.snd = params.map Prod.snd :=
  map_eq_of_rel h fun _ _ hp => hp.2

lemma withParameters (hparams : List.Forall₂ (TwinTyped π) params params') {x y : Walk Unit}
    (h : InStep π Eq x y) : InStep π Eq (withParameters params x) (withParameters params' y) := by
  refine .inScope (.andThen (.forM hparams fun p p' hp => ?_) fun _ => h)
  simp only [hp.1.name, hp.2]
  exact .bindVariable _ _

section

variable (h : Tree.Twin π stand t t')
include h

lemma typedParameters :
    InStep π (List.Forall₂ (TwinTyped π)) (typedParameters t) (typedParameters t') := by
  refine .setting fun st st' hst => ?_
  rw [hst.source, hst.source']
  refine .mapM h.parameters fun p p' hp => ?_
  rw [hp.type]
  exact .bind (.of (.typeName _)) fun _ _ hname => .pure ⟨hp, hname.symm⟩

lemma emitReturnType {span span' : Span} (hspan : π.isFixed → span' = span) :
    InStep π Eq (Walk.emitReturnType t span) (Walk.emitReturnType t' span') := by
  unfold Walk.emitReturnType
  exact rel_elim h.typeIn (.done ()) fun type type' htype =>
    .andThen (.dimensions ⟨_, h⟩) fun dims =>
      .andThen (.typeNameAt htype.erased dims) fun name => .emit _ name hspan

lemma constructorParameters (isCompact : Bool) :
    InStep π (List.Forall₂ (TwinTyped π)) (constructorParameters t isCompact)
      (constructorParameters t' isCompact) := by
  refine .path fun q q' hq => ?_
  cases isCompact with
  | false => exact .typedParameters h
  | true =>
    cases hq with
    | nil => exact .pure .nil
    | cons _ hq =>
      cases hq with
      | nil => exact .pure .nil
      | cons ht _ =>
        obtain ⟨_, ht⟩ := ht
        exact .typedParameters ht

end

section

variable (h : PairedParts π stand t t' cs cs')
include h

lemma emitParameters (hparams : List.Forall₂ (TwinTyped π) params params') {span span' : Span}
    (hspan : π.isFixed → span' = span) :
    InStep π Eq (emitParameters t cs params span)
      (emitParameters t' cs' params' span') := by
  refine .setting fun st st' hst => ?_
  rw [hst.source, hst.source']
  refine rel_elim (h.child .parameters) (.done ()) fun c c' hlist => ?_
  have hclean (source : List Char) (cs : Sense) :
      cs.filter (fun c => (Parameter.ofTree? source c.1).isSome) =
        cs.clean.filter fun c => (Parameter.ofTree? source c.1).isSome := by
    rw [Valued.clean, filter_filter]
    refine filter_congr fun c _ => ?_
    cases hcomment : c.1.kind.isComment with
    | false => simp
    | true => simp [parameter_of_comment source c.1 hcomment]
  have htrees := filter_rel hlist.1.2.inner.parts
    (p := fun c => (Parameter.ofTree? π.source c.1).isSome)
    (q := fun c => (Parameter.ofTree? π.source' c.1).isSome) fun p p' hp => by
      exact rel_elim hp.1.twin.parameter rfl fun _ _ _ => rfl
  dsimp only
  rw [hclean _ c.2.parts, hclean _ c'.2.parts]
  refine .forM (zip_rel htrees hparams) fun p p' hp => ?_
  have htype : p'.2.2 = p.2.2 := hp.2.2
  rw [htype]
  exact .andThen (.emit _ _ hspan) fun _ =>
    .inside ⟨_, h.twin⟩ (.inside ⟨_, hlist.1.1.twin⟩ (.visitModifiers hp.1.1.2.inner))

lemma visitMethod : InStep π Eq (Walk.visitMethod t cs) (Walk.visitMethod t' cs') := by
  unfold Walk.visitMethod
  refine rel_elim (h.twin.child .name) (.visitAll h) fun c c' hname => ?_
  refine .andThen (.of .currentType) fun current => .setting fun st st' hst => ?_
  rw [hst.source, hst.source', h.twin.typeParameters]
  refine .withVariables _ (.bind (.typedParameters h.twin) fun params params' hparams => ?_)
  rw [map_snd_of_typed hparams]
  refine .andThen (.text (text_of_role hname)) fun _ =>
    .andThen (.emitAt _ _ ⟨_, hname.1.twin⟩) fun _ => .andThen (.visitModifiers h) fun _ =>
      .bind (.spanOf ⟨_, h.twin⟩) fun span span' hspan =>
        .andThen (.emitReturnType h.twin hspan) fun _ =>
          .andThen (.emitParameters h hparams hspan) fun _ => .andThen (.emitThrows h.twin) fun _ =>
            .andThen (.visitIn h .value) fun _ => .ite ?_
              (.withParameters hparams (.visitIn h .body)) (.done ())
  exact rel_elim (h.child .body) .rfl fun _ _ _ => .rfl

lemma visitConstructor (isCompact : Bool) :
    InStep π Eq (Walk.visitConstructor t cs isCompact)
      (Walk.visitConstructor t' cs' isCompact) := by
  unfold Walk.visitConstructor
  refine rel_elim (h.twin.child .name) (.visitAll h) fun c c' hname => ?_
  refine .andThen (.of .currentType) fun current => .setting fun st st' hst => ?_
  rw [hst.source, hst.source', h.twin.typeParameters]
  refine .withVariables _ (.bind (.constructorParameters h.twin isCompact)
    fun params params' hparams => ?_)
  rw [map_snd_of_typed hparams]
  refine .andThen (.emitAt _ _ ⟨_, hname.1.twin⟩) fun _ => .andThen (.visitModifiers h) fun _ =>
    .bind (.spanOf ⟨_, h.twin⟩) fun span span' hspan =>
      .ite .rfl (.andThen (.emitParameters h hparams hspan) fun _ => ?_) ?_
  all_goals
    refine .andThen (.emitThrows h.twin) fun _ =>
      .ite ?_ (.withParameters hparams (.visitInsideIn h .body)) (.done ())
    exact rel_elim (h.child .body) .rfl fun _ _ _ => .rfl

end

section

variable {type type' : Tree} {span span' : Span}

section

variable (h : Tree.Twin π stand t t')
include h

lemma staticMember? (htext : t.kind = .identifier → t'.text π.source' = t.text π.source) :
    InStep π Eq (staticMember? t) (staticMember? t') := by
  refine .ite (by rw [h.kind]) (.done _) (.andThen (.dotted h htext) fun found => ?_)
  cases found with
  | none => exact .done _
  | some name =>
    dsimp only
    cases cutLast '.' name with
    | none => exact .done _
    | some cut =>
      refine .andThen (.of (.value? _)) fun value => .ite .rfl (.done _) ?_
      refine .andThen (.of (.resolveType? _)) fun owner => ?_
      cases owner with
      | some owner => exact .andThen (.of (.findField owner _)) fun _ => .done _
      | none => exact .andThen (.of (.recover name)) fun _ => .done _

lemma emitInitializer (hspan : π.isFixed → span' = span) :
    InStep π Eq (Walk.emitInitializer t span) (Walk.emitInitializer t' span') := by
  unfold Walk.emitInitializer
  refine rel_elim (h.child .value) (.done ()) fun c c' hvalue => ?_
  refine .andThen (.staticMember? hvalue.1.twin fun hkind =>
    hvalue.1.text (isRead_of_kind (hkind ▸ rfl))) fun member => ?_
  cases member with
  | none => exact .done ()
  | some member => exact .emit _ member hspan

lemma bindNamed (known : Option TypeName) :
    InStep π Eq (match t.child? .name with
        | some name => do Walk.bindVariable (← Walk.text name) known
        | _ => Pure.pure ())
      (match t'.child? .name with
        | some name => do Walk.bindVariable (← Walk.text name) known
        | _ => Pure.pure ()) := by
  exact rel_elim (h.child .name) (.done ()) fun c c' hname =>
    .andThen (.text (text_of_role hname)) fun _ => .bindVariable _ known

end

section

variable (h : Tree.TwinType π type type')
include h

lemma isVar : InStep π Eq (Walk.isVar type) (Walk.isVar type') := by
  obtain ⟨_, htwin⟩ := h.twin
  have htext : InStep π (fun s s' => type.kind = .typeIdentifier → s' = s) (Walk.text type)
      (Walk.text type') :=
    .setting fun st st' hst => .pure fun hkind => by rw [hst.source, hst.source', h.text hkind]
  refine .bind htext fun s s' hs => .pure ?_
  rw [htwin.kind]
  by_cases hkind : type.kind = .typeIdentifier
  · rw [hs hkind]
  · have hother : (type.kind == .typeIdentifier) = false := beq_eq_false_iff_ne.mpr hkind
    rw [hother, Bool.false_and, Bool.false_and]

lemma reportable (name : Option TypeName) :
    InStep π Eq (reportable type name) (reportable type' name) :=
  .andThen (.isVar h) fun _ => .done _

lemma emitVariable (name : Option TypeName) (hspan : π.isFixed → span' = span) :
    InStep π Eq (emitVariable type name span) (emitVariable type' name span') := by
  refine .andThen (.reportable h name) fun found => ?_
  cases found with
  | none => exact .done ()
  | some n => exact .emit _ n hspan

lemma variableType (hcs : PairedParts π stand t t' cs cs') :
    InStep π Eq (variableType type t cs) (variableType type' t' cs') :=
  .andThen (.isVar h) fun _ => .ite .rfl (.andThen (.typeIn hcs .value) fun _ => .done _)
    (.andThen (.dimensions ⟨_, hcs.twin⟩) fun dims =>
      .andThen (.typeNameAt h.erased dims) fun _ => .done _)

lemma emitTypes (hspan : π.isFixed → span' = span)
    {ds ds' : Sense} (hds : List.Forall₂ (fun d d' => ∃ stand, Paired π stand d d') ds ds')
    (reported : List String) :
    InStep π Eq (emitTypes type span reported ds)
      (emitTypes type' span' reported ds') := by
  induction hds generalizing reported with
  | nil => exact .done []
  | cons hd _ ih =>
    obtain ⟨_, hd⟩ := hd
    refine .andThen (.variableType h hd.inner) fun known =>
      .andThen (.reportable h known) fun found => ?_
    cases found.filter _ with
    | none => exact .andThen (ih reported) fun _ => .done _
    | some n =>
      exact .andThen (.emit _ n hspan) fun _ => .andThen (ih (n.name :: reported)) fun _ => .done _

end

section

variable (h : PairedParts π stand t t' cs cs')
include h

lemma visitVariables (isLocal : Bool) :
    InStep π Eq (Walk.visitVariables t cs isLocal) (Walk.visitVariables t' cs' isLocal) := by
  have hdeclarators := h.childrenIn .declarator
  unfold Walk.visitVariables
  refine rel_elim h.twin.declaredType (.visitAll h) fun type type' htype => ?_
  refine .bind (.spanOf ⟨_, h.twin⟩) fun span span' hspan =>
    .andThen (.emitTypes htype hspan (hdeclarators.imp fun _ _ hd => ⟨_, hd.1.2⟩) []) fun types =>
      .andThen (.forM hdeclarators fun d d' hd => .emitInitializer hd.1.1.twin hspan) fun _ =>
        .ite .rfl (.andThen (.forM (S := fun d d' => ∃ stand, Tree.Twin π stand d.1.1 d'.1.1 ∧
          d'.2 = d.2) ?_ fun d d' hd => ?_) fun _ => .visitAll h) (.visitAll h)
  · have hsame : List.Forall₂ Eq types types := forall₂_eq_eq_eq ▸ rfl
    exact (zip_rel hdeclarators hsame).imp fun d d' hd => ⟨_, hd.1.1.1.twin, hd.2.symm⟩
  · obtain ⟨_, hd, htypes⟩ := hd
    simp only [htypes]
    exact .bindNamed hd d.2

lemma loopType (htype : Tree.TwinType π type type') :
    InStep π Eq (loopType t type cs) (loopType t' type' cs') :=
  .andThen (.isVar htype) fun _ => .ite .rfl (.andThen (.typeIn h .value) fun _ => .done _)
    (.andThen (.dimensions ⟨_, h.twin⟩) fun dims =>
      .andThen (.typeNameAt htype.erased dims) fun _ => .done _)

lemma loopVariable : InStep π Eq (Walk.loopVariable t cs) (Walk.loopVariable t' cs') := by
  unfold Walk.loopVariable
  refine rel_elim h.twin.typeIn (.done _) fun type type' htype => ?_
  refine rel_elim (h.twin.child .name) (.done _) fun name name' hname => ?_
  refine .andThen (.loopType h htype) fun known => .setting fun st st' hst =>
    .andThen (.emitVariable htype known fun hfixed => ?_) fun _ =>
      .andThen (.text (text_of_role hname)) fun _ => .done _
  have hrange := IsTwin.range htype.twin hfixed
  have hrange' := IsTwin.range ⟨_, hname.1.twin⟩ hfixed
  rw [hst.lines hfixed, hrange.1, hrange.2, hrange'.2]

lemma visitEnhancedFor : InStep π Eq (visitEnhancedFor t cs) (visitEnhancedFor t' cs') := by
  refine .andThen (.loopVariable h) fun found => .andThen (.visitModifiers h) fun _ =>
    .andThen (.visitIn h .value) fun _ => .inScope ?_
  cases found with
  | none => exact .visitIn h .body
  | some found => exact .andThen (.bindVariable _ _) fun _ => .visitIn h .body

end

lemma visitCatchParameter (ht : IsTwin π t t') {c c' : SensePart} (h : Paired π stand c c') :
    InStep π Eq (visitCatchParameter t c) (visitCatchParameter t' c') := by
  have htypes : List.Forall₂ (Tree.TwinType π)
      ((((c.1.childOf? .catchType).map children).getD []).filter fun c => c.kind.isType)
      ((((c'.1.childOf? .catchType).map children).getD []).filter fun c => c.kind.isType) := by
    exact rel_elim (h.twin.childOf (k := .catchType) rfl) .nil fun l l' hlist =>
      hlist.1.twin.typesAmong
  refine .bind (.spanOf ⟨_, h.twin⟩) fun span span' hspan =>
    .andThen (.mapM_eq htypes fun type type' htype => .andThen (.typeNameAt htype.erased 0)
      fun name => .andThen (.emit _ name hspan) fun _ => .done _) fun names => ?_
  have hmodifiers := InStep.inside ht (.visitModifiers h.inner)
  exact rel_elim (h.twin.child .name) hmodifiers fun name name' hname =>
    .andThen (.text (text_of_role hname)) fun _ => .andThen (.bindVariable _ _) fun _ => hmodifiers

lemma visitCatch (h : PairedParts π stand t t' cs cs') :
    InStep π Eq (visitCatch t cs) (visitCatch t' cs') := by
  refine .inScope ?_
  exact rel_elim (h.childOf (k := .catchFormalParameter) rfl) (.visitIn h .body) fun c c' hparam =>
    .andThen (.visitCatchParameter ⟨_, h.twin⟩ hparam.1.2) fun _ => .visitIn h .body

lemma bindResource (h : PairedParts π stand t t' cs cs') :
    InStep π Eq (Walk.bindResource t cs) (Walk.bindResource t' cs') := by
  unfold Walk.bindResource
  refine rel_elim h.twin.typeIn (.done _) fun type type' htype => ?_
  refine rel_elim (h.twin.child .name) (.done _) fun name name' hname => ?_
  exact .bind (.spanOf ⟨_, h.twin⟩) fun span span' hspan =>
    .andThen (.variableType htype h) fun known =>
      .andThen (.emitVariable htype known hspan) fun _ =>
        .andThen (.emitInitializer h.twin hspan) fun _ =>
          .andThen (.text (text_of_role hname)) fun _ => .bindVariable _ _

end

variable {links links' : List Link}

section

variable (h : PairedParts π stand t t' cs cs')
include h

lemma linkFrom {call call' : Walk CallOutcome} (hcall : InStep π Eq call call') :
    (linkFrom t cs call).Twin π (linkFrom t' cs' call') where
  tree := ⟨_, h.twin⟩
  call := hcall
  parts := by
    refine h.forM (p := fun c => !(c.role == some .object && c.kind == .methodInvocation))
      (fun c c' hc => ?_) (fun _ _ _ hc => hc.meaning.visit) (fun _ hc _ => hc.visit)
      fun _ hc _ => hc.visit
    obtain ⟨_, hc⟩ := hc
    rw [hc.role, hc.kind]

lemma linksFrom {call call' : Walk CallOutcome} (hcall : InStep π Eq call call') :
    List.Forall₂ (Link.Twin π) (Walk.linksFrom t cs call) (Walk.linksFrom t' cs' call') := by
  unfold Walk.linksFrom
  rw [h.twin.kind]
  split
  · refine .cons (linkFrom h hcall) ?_
    exact rel_elim (h.child .object) .nil fun c c' hpart => hpart.1.2.meaning.links
  · exact .nil

lemma visitCreation (hkind : t.kind = .objectCreationExpression) :
    InStep π Eq (Walk.visitCreation t cs) (Walk.visitCreation t' cs') := by
  have hsilent (t : Tree) (c : SensePart) (hc : IsSilent c) (hcomment : c.1.kind.isComment) :
      (if c.1.kind == .classBody then Walk.visitAnonymousBody t c
        else Walk.inside t c.2.value.visit) = Pure.pure () := by
    rw [hc.visit]
    refine if_neg fun hbody => ?_
    rw [eq_of_beq hbody] at hcomment
    cases hcomment
  have hparts := h.forM (p := fun _ => true) (fun _ _ _ => rfl)
    (fun c c' htwin hc => .ite (by rw [htwin.twin.kind])
      (.visitAnonymousBody ⟨_, h.twin⟩ hc htwin.start) (.inside ⟨_, h.twin⟩ hc.meaning.visit))
    (hsilent t) (hsilent t')
  simp only [filter_true] at hparts
  unfold Walk.visitCreation
  exact rel_elim h.twin.typeIn hparts fun type type' htype =>
    .andThen (.creationCalls h hkind) fun _ =>
      .andThen (.emitCalls _ _ htype.nameOfType) fun _ => hparts

lemma visitExplicitConstructor :
    InStep π Eq (Walk.visitExplicitConstructor t cs) (Walk.visitExplicitConstructor t' cs') := by
  unfold Walk.visitExplicitConstructor
  exact rel_elim (h.twin.child .constructor) (.visitAll h) fun c c' hpart =>
    .andThen (.explicitConstructorCalls h) fun _ =>
      .andThen (.emitCalls _ _ ⟨_, hpart.1.twin⟩) fun _ => .visitAll h

end

section

variable (h : List.Forall₂ (Link.Twin π) links links')
include h

lemma visitLinks : InStep π Eq (visitLinks links) (visitLinks links') := by
  induction h with
  | nil => exact .done ()
  | cons hlink _ ih => exact .inside hlink.tree (.andThen ih fun _ => hlink.parts)

lemma reportLinks : InStep π Eq (reportLinks links) (reportLinks links') := by
  refine .forM h fun link link' hlink => ?_
  obtain ⟨_, htree⟩ := hlink.tree
  exact rel_elim (htree.child .name) (.done ()) fun name name' hname =>
    .andThen hlink.call fun _ => .emitCalls _ _ ⟨_, hname.1.twin⟩

lemma visitChain : InStep π Eq (visitChain links) (visitChain links') :=
  .andThen (.forM (rel_reverse h) fun _ _ hlink => .andThen hlink.call fun _ => .done ())
    fun _ => .andThen (.reportLinks h) fun _ => .visitLinks h

end

lemma visitUse (h : PairedParts π stand t t' cs cs')
    (hkind : List.contains [.annotationUse, .annotationMarker] t.kind) :
    InStep π Eq (Walk.visitUse t cs) (Walk.visitUse t' cs') := by
  unfold Walk.visitUse
  refine rel_elim (h.twin.child .name) (.visitInsideIn h .arguments) fun c c' hname => ?_
  refine .setting fun st st' hst => ?_
  rw [hst.source, hst.source', Tree.Twin.dottedName (text_of_role hname)]
  exact .andThen (.of (.typeName _)) fun found => .andThen (.elementsFrom h hkind) fun values =>
    .bind (.spanOf ⟨_, hname.1.twin⟩) fun span span' hspan =>
      .andThen (.emitWith _ found hspan _) fun _ => .visitInsideIn h .arguments

lemma bindLambdaParameters (h : Tree.Twin π stand t t') :
    InStep π Eq (Walk.bindLambdaParameters t) (Walk.bindLambdaParameters t') := by
  unfold Walk.bindLambdaParameters
  refine rel_elim (h.child .parameters) (.done ()) fun c c' hparams => ?_
  simp only [hparams.1.twin.kind]
  split
  case h_1 hkind =>
    exact .andThen (.text (hparams.1.text (isRead_of_kind (hkind ▸ rfl)))) fun _ =>
      .bindVariable _ none
  case h_2 =>
    refine .setting fun st st' hst => ?_
    rw [hst.source, hst.source']
    refine .forM h.parameters fun p p' hp => ?_
    rw [hp.type, hp.name]
    exact .andThen (.of (.typeName _)) fun _ => .bindVariable _ _
  case h_3 =>
    refine .forM (hparams.1.twin.childrenOfKinds (p := fun k => k == .identifier)) fun p p' hp => ?_
    have hkind : p.kind = .identifier := eq_of_beq hp.2
    exact .andThen (.text (hp.1.text (isRead_of_kind (hkind ▸ rfl)))) fun _ =>
      .bindVariable _ none

lemma bindPattern (h : Tree.Twin π stand t t') (hkind : t.kind = .instanceofExpression) :
    InStep π Eq (Walk.bindPattern t) (Walk.bindPattern t') := by
  unfold Walk.bindPattern
  refine rel_elim (h.child .name) (.done ()) fun name name' hname => ?_
  refine rel_elim (h.child .right) (.done ()) fun c c' hright => ?_
  have htyped : isTyped t c := by simp [isTyped, hkind, hright.2]
  exact .andThen (.text (text_of_role hname)) fun _ =>
    .andThen (.typeNameAt (hright.1.type htyped).erased 0) fun _ => .bindVariable _ _

lemma operandsFrom (h : PairedParts π stand t t' cs cs') :
    List.Forall₂ (InStep π Eq) (operandsFrom t cs) (operandsFrom t' cs') := by
  have hleft : List.Forall₂ (InStep π Eq)
      (((cs.child? .left).map fun c => c.2.value.operands).getD [])
      (((cs'.child? .left).map fun c => c.2.value.operands).getD []) := by
    exact rel_elim (h.child .left) .nil fun c c' hpart => hpart.1.2.meaning.operands
  have hright : List.Forall₂ (InStep π Eq) ((cs.child? .right).map fun c => c.2.value.visit).toList
      ((cs'.child? .right).map fun c => c.2.value.visit).toList := by
    exact rel_elim (h.child .right) .nil fun c c' hpart => .cons hpart.1.2.meaning.visit .nil
  exact rel_map (fun _ _ hx => .inside ⟨_, h.twin⟩ hx) (rel_append hleft hright)

lemma visitFrom (h : PairedParts π stand t t' cs cs') (hstart : t'.start = π.start t.start)
    (hlinks : List.Forall₂ (Link.Twin π) links links') :
    InStep π Eq (Walk.visitFrom t cs links) (Walk.visitFrom t' cs' links') := by
  unfold Walk.visitFrom
  rw [h.twin.kind]
  split
  case h_1 => exact .visitImport h.twin
  case h_2 | h_3 | h_4 | h_5 | h_6 => exact .visitTypeDeclaration h hstart _
  case h_7 => exact .visitEnumConstant h
  case h_8 | h_9 => exact .visitMethod h
  case h_10 | h_11 => exact .visitConstructor h _
  case h_12 | h_13 | h_14 => exact .visitVariables h _
  case h_15 => exact .visitEnhancedFor h
  case h_16 => exact .visitCatch h
  case h_17 | h_18 => exact .inScope (.visitAll h)
  case h_19 => exact .andThen (.bindResource h) fun _ => .visitAll h
  case h_20 => exact .visitChain hlinks
  case h_21 hform => exact .visitCreation h (kind_eq_of_form hform)
  case h_22 => exact .visitExplicitConstructor h
  case h_23 hform =>
    have hkind : t.kind = .annotationUse := kind_eq_of_form hform
    exact .visitUse h (by rw [hkind]; rfl)
  case h_24 hform =>
    have hkind : t.kind = .annotationMarker := kind_eq_of_form hform
    exact .visitUse h (by rw [hkind]; rfl)
  case h_25 => exact .inScope (.andThen (.bindLambdaParameters h.twin) fun _ => .visitIn h .body)
  case h_26 hform =>
    have hkind : t.kind = .instanceofExpression := kind_eq_of_form hform
    exact .andThen (.bindPattern h.twin hkind) fun _ => .visitAll h
  case h_27 => exact .visitAll h
  case h_28 => exact .ite .rfl (.forM (operandsFrom h) fun _ _ hx => hx) (.visitAll h)

end InStep

variable {π : Pairing} {stand : Stand} {t t' : Tree} {cs cs' : Sense}

lemma meaningFrom_twin (h : PairedParts π stand t t' cs cs') (htext : TwinText π stand t t')
    (p p' : Tree.Position) : (meaningFrom p t cs).Twin π stand (meaningFrom p' t' cs') := by
  have hcall := InStep.rememberedCall p p' (.bindInvocation h)
  have htype := InStep.typeFrom h htext hcall
  have hlinks := InStep.linksFrom h hcall
  have hvisit := InStep.visitFrom h htext.start hlinks
  have hchain : (t'.kind == .binaryExpression) = (t.kind == .binaryExpression) := by
    rw [h.twin.kind]
  refine ⟨htype, ?leftmost, ?steps, .operandFrom h htext htype,
    fun hstand => .elementFrom h htext hstand htype, hlinks, hvisit, ?operands⟩
  case leftmost => exact .ite (by rw [hchain]) (.leftmostOf h) htype
  case steps =>
    simp only [meaningFrom, hchain]
    split
    · exact InStep.stepsOf h
    · exact .nil
  case operands =>
    simp only [meaningFrom, hchain]
    split
    · exact InStep.operandsFrom h
    · exact .cons hvisit .nil

def SilentOn (f : Tree.Position → Tree → Sense → Meaning) : Prop :=
  ∀ (c : Tree) (p : Tree.Position), c.kind.isComment → c.IsAside →
    IsSilent (c, Tree.decorate f p c)

lemma silentOn_meaningFrom : SilentOn meaningFrom := by
  intro c p h hleaf
  cases c with
  | node => cases hleaf.leaf
  | leaf role kind range text =>
    obtain rfl | rfl := Kind.isComment_cases (k := kind) h
    · exact ⟨rfl, rfl⟩
    · exact ⟨rfl, rfl⟩

section

/- Two ways to give trees their meanings. Those of twins correspond if those of their parts do. For
the first way this need hold only where `V` does, which goes from a tree to its parts. -/
variable {f g : Tree.Position → Tree → Sense → Meaning} {V : Tree.Position → Tree → Prop}
  (hf : SilentOn f) (hg : SilentOn g)
  (hV : ∀ {p t i c}, V p t → t.children[i]? = some c → V (i :: p) c)
include hf hg hV

lemma pairedParts_of_parts (h : Tree.Twin π stand t t')
    (hparts : List.Forall₂ (fun c c' => Tree.TwinPart π stand t c c' ∧ ∀ q q', V q c →
      Paired π (stand.enter t c) (c, decorate f q c) (c', decorate g q' c'))
      t.clean t'.clean) {p : Tree.Position} (hp : V p t) (p' : Tree.Position) :
    PairedParts π stand t t' (decorate f p t).parts (decorate g p' t').parts := by
  have hsilent {t : Tree} {f : Tree.Position → Tree → Sense → Meaning} (hf : SilentOn f)
      (haside : ∀ c ∈ t.children, c.kind.isComment → c.IsAside) (p : Tree.Position) :
      SilentParts (decorate f p t).parts := by
    intro c hc hcomment
    obtain ⟨i, child, hchild, rfl⟩ := mem_parts_decorate hc
    exact hf child _ hcomment (haside child (mem_of_getElem? hchild) hcomment)
  refine ⟨⟨h, trees_decorate f p t, trees_decorate g p' t', ?_⟩, hsilent hf h.aside.1 p,
    hsilent hg h.aside.2 p'⟩
  rw [← clean_trees (trees_decorate f p t), ← clean_trees (trees_decorate g p' t'),
    forall₂_map_left_iff, forall₂_map_right_iff, forall₂_iff_zip] at hparts
  refine forall₂_iff_zip.mpr ⟨hparts.1, fun {c c'} hpair => ?_⟩
  obtain ⟨hpart, hpaired⟩ := hparts.2 hpair
  obtain ⟨hmem, hmem'⟩ := of_mem_zip hpair
  obtain ⟨i, child, hi, rfl⟩ := mem_parts_decorate (mem_filter.mp hmem).1
  obtain ⟨i', child', _, rfl⟩ := mem_parts_decorate (mem_filter.mp hmem').1
  exact ⟨hpart, hpaired _ _ (hV hp hi)⟩

variable (hvalue : ∀ {stand t t' p p'}, V p t → TwinText π stand t t' →
  PairedParts π stand t t' (Tree.decorate f p t).parts (Tree.decorate g p' t').parts →
  (f p t (Tree.decorate f p t).parts).Twin π stand (g p' t' (Tree.decorate g p' t').parts))
include hvalue

lemma paired_decorate (h : Tree.Twin π stand t t') (htext : TwinText π stand t t')
    (p p' : Tree.Position) (hp : V p t) :
    Paired π stand (t, decorate f p t) (t', decorate g p' t') := by
  revert htext p p'
  refine Tree.Twin.induction (motive := fun stand t t' => TwinText π stand t t' → ∀ p p', V p t →
    Paired π stand (t, decorate f p t) (t', decorate g p' t')) ?_ h
  intro stand t t' h hparts htext p p' hp
  have hcs := pairedParts_of_parts hf hg hV h
    (hparts.imp fun c c' hc => ⟨hc.1, hc.2 (.of_part hc.1)⟩) hp p'
  refine .mk h ?_ (trees_decorate f p t) (trees_decorate g p' t') hcs.silent hcs.silent'
    fun pair hpair => ((forall₂_iff_zip.mp hcs.parts).2 hpair).2
  rw [value_decorate, value_decorate]
  exact hvalue hp htext hcs

lemma visitAll_twin (h : Tree.Twin π stand t t') (hp : V [] t) :
    InStep π Eq (visitAll t (decorate f [] t).parts) (visitAll t' (decorate g [] t').parts) :=
  .visitAll (pairedParts_of_parts hf hg hV h (h.parts.imp fun _ _ hc =>
    ⟨hc, paired_decorate hf hg hV hvalue hc.twin (.of_part hc)⟩) hp [])

end

lemma collect_twin {π : Passage} {source source' : List Char} {unit unit' : Tree}
    (h : Tree.Twin π .outside unit unit') (hparse : parse? source = some unit)
    (hparse' : parse? source' = some unit')
    {place place' : Place} (hplace : place.toSetting.Twin π place'.toSetting)
    (hpath : List.Forall₂ (IsTwin π) place.path place'.path) :
    List.Forall₂ (Record.Twin π) (collect place unit).records (collect place' unit').records := by
  have hvisit := visitAll_twin (π := ⟨π, .similar⟩) (V := fun _ _ => True) silentOn_meaningFrom
    silentOn_meaningFrom (fun _ _ => trivial) (fun _ htext hcs => meaningFrom_twin hcs htext _ _)
    h trivial
  rw [show (collect place unit).records = _ from
      (collect_alike hparse place place.remembering).records,
    show (collect place' unit').records = _ from
      (collect_alike hparse' place' place'.remembering).records]
  exact (hvisit { place with remembering := .never } { place' with remembering := .never } {} {}
    ⟨hplace, rfl, rfl, hpath⟩ ⟨⟨hplace.index, during_after place.index [], .refl _⟩, rfl,
      .nil⟩).2.records

end Xref.Reference
