import Xref.Proofs.Reference.InStepTyping

/-!
# Calls of twins

What calls of twins mean, and the values that their annotations have, is found in step too.
-/
namespace Xref.Reference

open Declaration Java Resolve Syntax Text Walk Tree

variable {ε : Exchange}

namespace InStep

variable {π : Pairing} {stand : Stand} {t t' : Tree} {cs cs' : Sense}

lemma receiverTarget {object object' : Tree} (h : Tree.Twin π stand object object')
    (htext : TwinText π stand object object') {m m' : Meaning}
    (hm : InStep π Eq m.operand m'.operand) :
    InStep π Eq (receiverTarget object m) (receiverTarget object' m') := by
  have hrecover (name : String) :
      InStep π Eq (do return Target.unbound (some (← recover name).name))
        (do return Target.unbound (some (← recover name).name)) :=
    .andThen (.of (.recover name)) fun _ => .done _
  refine .ite (by rw [h.kind]) (.andThen (.of .superType) fun owner => ?_)
    (.andThen hm fun operand => ?_)
  · cases owner <;> exact .done _
  · cases operand with
    | value type =>
      cases type with
      | some type => exact .ite .rfl (.done _) (.done _)
      | none =>
        refine .andThen (.dotted h fun hkind => htext.spelled (hkind ▸ rfl)) fun name => ?_
        cases name with
        | none => exact .done _
        | some name => exact hrecover name
    | type owner => exact .done _
    | package name | unknown name => exact hrecover name

lemma constructorOwner (h : Tree.Twin π stand t t') (current : String) :
    InStep π Eq (constructorOwner t current) (constructorOwner t' current) := by
  refine .ite ?_ (.pose (.superclass current)) (.done _)
  refine rel_elim (h.child .constructor) .rfl fun _ _ hpart => ?_
  rw [Option.any_some, Option.any_some, hpart.1.twin.kind]

section

variable (h : PairedParts π stand t t' cs cs')
include h

lemma argumentTypes : InStep π Eq (Walk.argumentTypes cs) (Walk.argumentTypes cs') := by
  unfold Walk.argumentTypes
  exact rel_elim (h.child .arguments) (.done []) fun c c' hlist =>
    .mapM_eq hlist.1.2.inner.named fun a a' ha => ha.2.meaning.type

lemma callTarget (name : String) :
    InStep π Eq (Walk.callTarget cs name) (Walk.callTarget cs' name) := by
  unfold Walk.callTarget
  exact rel_elim (h.child .object) (.of (.implicitTarget name)) fun c c' hobject =>
    .receiverTarget hobject.1.1.twin (.of_part hobject.1.1) hobject.1.2.meaning.operand

lemma bindInvocation : InStep π Eq (Walk.bindInvocation t cs) (Walk.bindInvocation t' cs') := by
  unfold Walk.bindInvocation
  refine rel_elim (h.twin.child .name) (.done _) fun c c' hname => ?_
  refine .andThen (.text (text_of_role hname)) fun name =>
    .andThen (.argumentTypes h) fun args => .andThen (.callTarget h name) fun target => ?_
  cases target with
  | owner owner =>
    exact .andThen (.pose (.findMethods owner name)) fun candidates =>
      .of (.bindCall owner name candidates args)
  | found owner candidates => exact .of (.bindCall owner name candidates args)
  | unbound receiver => exact .done _

lemma creationCalls (hkind : t.kind = .objectCreationExpression) :
    InStep π Eq (creationCalls t cs) (creationCalls t' cs') := by
  have hbody : (t'.childOf? .classBody).isSome = (t.childOf? .classBody).isSome :=
    rel_elim (h.twin.childOf (k := .classBody) rfl) rfl fun _ _ _ => rfl
  refine .andThen (.argumentTypes h) fun args => .andThen (.creationOwner h hkind) fun owner => ?_
  cases owner with
  | none => exact .done []
  | some owner =>
    refine .ite .rfl (.done _) (.bind (.pose (.description owner.name))
      fun info info' (hinfo : SameButOrigin info info') => ?_)
    have hinterface : (info'.any fun i => i.kind.isInterface) =
        info.any fun i => i.kind.isInterface := by
      cases hinfo <;> rfl
    exact .ite (by rw [hbody, hinterface]) (.done _) (.of (.bindConstructor owner.name args))

lemma explicitConstructorCalls :
    InStep π Eq (explicitConstructorCalls t cs) (explicitConstructorCalls t' cs') := by
  refine .andThen (.argumentTypes h) fun args => .andThen (.of .currentType) fun current => ?_
  cases current with
  | none => exact .done []
  | some current =>
    refine .andThen (.constructorOwner h.twin current) fun owner => ?_
    cases owner with
    | some owner => exact .of (.bindConstructor owner args)
    | none => exact .andThen (.of (.writtenSuperclass current)) fun _ => .done _

end

lemma addElement (hstand : stand.isArguments) (values : ElementValues) {a a' : SensePart}
    (htwin : Tree.TwinPart π stand t a.1 a'.1) (h : Paired π (stand.enter t a.1) a a') :
    InStep π Eq (addElement values a) (addElement values a') := by
  refine .ite (by rw [htwin.twin.kind]) (.done values) ?_
  refine .iteOf (by rw [htwin.twin.kind]) (fun hpair => ?_) fun hpair =>
    .andThen (h.meaning.element ?_) fun _ => .done _
  case refine_2 =>
    have hkind : a.1.kind != .elementValuePair := bne_iff_ne.mpr fun hkind =>
      hpair (by simp [hkind])
    simp only [Stand.enter, hstand, hkind, Bool.and_self, Bool.true_or]
  refine rel_elim (htwin.twin.child .key) (.done values) fun k k' hkey => ?_
  refine rel_elim (h.inner.child .value) (.done values) fun v v' hpart => ?_
  refine .andThen (.text (text_of_role hkey)) fun key => ?_
  refine .andThen (hpart.1.2.meaning.element ?_) fun _ => .done _
  simp only [Stand.enter, hstand, hpair, Bool.and_self, Bool.or_true, Bool.true_or]

lemma elementsFrom (h : PairedParts π stand t t' cs cs')
    (hkind : List.contains [.annotationUse, .annotationMarker] t.kind) :
    InStep π Eq (Walk.elementsFrom cs) (Walk.elementsFrom cs') := by
  have hclean (cs : Sense) : cs.named.foldlM Walk.addElement [] =
      cs.named.clean.foldlM Walk.addElement [] := by
    refine (foldlM_filter (fun a _ hcomment values => ?_) []).symm
    exact if_pos (by simpa using hcomment)
  unfold Walk.elementsFrom
  refine rel_elim (h.child .arguments) (.done []) fun c c' hlist => ?_
  have hstand : (stand.enter t c.1).isArguments := by
    simp only [Stand.enter, hkind, hlist.2, beq_self_eq_true, Bool.and_self]
  dsimp only
  rw [hclean, hclean]
  exact .foldlM hlist.1.2.inner.named (fun values a a' ha => .addElement hstand values ha.1 ha.2) []

lemma annotationName (h : Tree.Twin π stand t t') :
    InStep π Eq (Walk.annotationName t) (Walk.annotationName t') := by
  unfold Walk.annotationName
  refine rel_elim (h.child .name) (.done _) fun c c' hname => ?_
  refine .setting fun st st' hst => ?_
  rw [hst.source, hst.source', Tree.Twin.dottedName (text_of_role hname)]
  exact .andThen (.of (.typeName _)) fun _ => .done _

lemma elementFrom (h : PairedParts π stand t t' cs cs') (htext : TwinText π stand t t')
    (hstand : stand.isValue) {type type' : Walk (Option TypeName)}
    (htype : InStep π Eq type type') :
    InStep π Eq (Walk.elementFrom t cs type) (Walk.elementFrom t' cs' type') := by
  have hwhole (hparted : t.isParted = false) : InStep π Eq (Walk.text t) (Walk.text t') :=
    .text (htext.value hstand hparted)
  have hitems (hkind : List.contains [.elementValueArrayInitializer, .arrayInitializer] t.kind) :
      InStep π Eq (do return ElementValue.list (← cs.named.clean.mapM fun c => c.2.value.element))
        (do return .list (← cs'.named.clean.mapM fun c => c.2.value.element)) := by
    refine .andThen (.mapM_eq h.named fun c c' hc => hc.2.meaning.element ?_) fun _ => .done _
    simp only [Stand.enter, hstand, hkind, Bool.and_self, Bool.or_true]
  have hnested (hkind : List.contains [.annotationUse, .annotationMarker] t.kind) :
      InStep π Eq (do return ElementValue.nested (← Walk.annotationName t) (← Walk.elementsFrom cs))
        (do return .nested (← Walk.annotationName t') (← Walk.elementsFrom cs')) :=
    .andThen (.annotationName h.twin) fun _ => .andThen (.elementsFrom h hkind) fun _ => .done _
  unfold Walk.elementFrom
  rw [h.twin.kind]
  split
  case h_1 hkind | h_2 hkind => exact hitems (by rw [hkind]; rfl)
  case h_3 hkind | h_4 hkind => exact hnested (by rw [hkind]; rfl)
  case h_5 hkind => exact .andThen (hwhole (by simp [isParted, hkind])) fun _ => .done _
  case h_6 hkind =>
    have hhead := h.twin.literal hstand hkind
    cases hc : t.named.head? with
    | none =>
      have hc' : t'.named.head? = none := by simpa [hc] using hhead
      simp only [hc']
      exact .andThen (hwhole (by simp [isParted, hkind])) fun _ => .done _
    | some c =>
      obtain ⟨c', hc', herased⟩ : ∃ c', t'.named.head? = some c' ∧
          c'.erased π.source' = c.erased π.source := by simpa [hc] using hhead
      simp only [hc']
      exact .andThen (.typeNameAt herased 0) fun _ => .done _
  case h_7 hlist harray huse hmarker _ _ =>
    refine .andThen htype fun _ => .andThen (hwhole ?_) fun _ => .done _
    simpa [isParted] using ⟨hlist, harray, huse, hmarker⟩

end InStep

end Xref.Reference
