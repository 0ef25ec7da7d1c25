import Xref.Proofs.Reference.Typing

/-!
# Calls are evaluated

What a call or an annotation means is an evaluation too. The arguments stand one level deeper than
the parts of an expression, so the parts must not be methods.
-/
namespace Xref.Reference

open Declaration Java Resolve Syntax Text

namespace Evaluation

variable {binding : Bindings} {source : List Char} {κ : Contexts} {ctx : Context} {cs : Sense}

lemma info (q : String) : Evaluation binding κ ctx (Walk.ask fun index => Query.info index q) :=
  .ask fun _ => .look q

lemma argumentTypes (hcs : SoundParts binding source κ ctx cs)
    (hplain : PlainParts cs) : Evaluation binding κ ctx (Walk.argumentTypes cs) := by
  unfold Walk.argumentTypes
  cases h : cs.child? .arguments with
  | none => exact .pure []
  | some list =>
    refine .mapM fun a ha => ?_
    have hmem := Valued.mem_of_mem_named (List.mem_filter.mp ha).1
    exact (hcs.inside hplain h a hmem).meaning.type

lemma receiverTarget (object : Tree) {m : Meaning} (hm : Evaluation binding κ ctx m.operand) :
    Evaluation binding κ ctx (Walk.receiverTarget object m) := by
  have hrecover (name : String) : Evaluation binding κ ctx
      (do return Target.unbound (some (← Walk.recover name).name)) :=
    .bind (.of (.recover name)) fun _ => .pure _
  refine .ite _ (.bind (.of .superType) fun owner => ?_) (.bind hm fun operand => ?_)
  · cases owner <;> exact .pure _
  · cases operand with
    | value type =>
      cases type with
      | some type => exact .ite _ (.pure _) (.pure _)
      | none =>
        refine .bind (.dotted object) fun name => ?_
        cases name with
        | none => exact .pure _
        | some name => exact hrecover name
    | type owner => exact .pure _
    | package name | unknown name => exact hrecover name

lemma callTarget (name : String) (hcs : SoundParts binding source κ ctx cs) :
    Evaluation binding κ ctx (Walk.callTarget cs name) := by
  unfold Walk.callTarget
  cases h : cs.child? .object with
  | none => exact .of (.implicitTarget name)
  | some c => exact .receiverTarget c.1 (hcs.child h).operand

lemma constructorOwner (t : Tree) (current : String) :
    Evaluation binding κ ctx (Walk.constructorOwner t current) :=
  .ite _ (.of (.pose (.superclass current) rfl)) (.pure _)

section

variable (t : Tree) (hcs : SoundParts binding source κ ctx cs) (hplain : PlainParts cs)
include hcs hplain

lemma bindInvocation : Evaluation binding κ ctx (Walk.bindInvocation t cs) := by
  unfold Walk.bindInvocation
  cases t.child? .name with
  | none => exact .pure _
  | some nameTree =>
    refine .bind (.text nameTree) fun name => .bind (.argumentTypes hcs hplain) fun args =>
      .bind (.callTarget name hcs) fun target => ?_
    cases target with
    | owner owner =>
      exact .bind (.of (.pose (.findMethods owner name) rfl)) fun candidates =>
        .of (.bindCall owner name candidates args)
    | found owner candidates => exact .of (.bindCall owner name candidates args)
    | unbound receiver => exact .pure _

lemma creationCalls : Evaluation binding κ ctx (Walk.creationCalls t cs) := by
  refine .bind (.argumentTypes hcs hplain) fun args => .bind (.creationOwner t hcs) fun owner => ?_
  cases owner with
  | none => exact .pure []
  | some owner =>
    exact .ite _ (.pure _)
      (.bind (.info owner.name) fun _ => .ite _ (.pure _) (.of (.bindConstructor owner.name args)))

lemma explicitConstructorCalls : Evaluation binding κ ctx (Walk.explicitConstructorCalls t cs) := by
  refine .bind (.argumentTypes hcs hplain) fun args => .bind .currentType fun current => ?_
  cases current with
  | none => exact .pure []
  | some current =>
    refine .bind (.constructorOwner t current) fun owner => ?_
    cases owner with
    | some owner => exact .of (.bindConstructor owner args)
    | none => exact .bind (.of (.writtenSuperclass current)) fun _ => .pure _

end

lemma addElement (values : ElementValues) {argument : SensePart}
    (h : SoundAt binding source κ ctx argument) :
    Evaluation binding κ ctx (Walk.addElement values argument) := by
  unfold Walk.addElement
  split
  · exact .pure values
  · split
    case isTrue hpair =>
      have hplain : argument.1.kind.isCallable = false := by rw [eq_of_beq hpair]; rfl
      split
      case h_1 key _ value _ hvalue =>
        have hvalue := (h.parts hplain).child hvalue
        exact .bind (.text key) fun _ => .bind hvalue.element fun _ => .pure _
      case h_2 => exact .pure values
    case isFalse => exact .bind h.meaning.element fun _ => .pure _

lemma elementsFrom (hcs : SoundParts binding source κ ctx cs)
    (hplain : PlainParts cs) : Evaluation binding κ ctx (Walk.elementsFrom cs) := by
  unfold Walk.elementsFrom
  cases h : cs.child? .arguments with
  | none => exact .pure []
  | some list =>
    exact .foldlM (fun values argument ha =>
      .addElement values (hcs.inside hplain h argument (Valued.mem_of_mem_named ha))) []

lemma annotationName (t : Tree) : Evaluation binding κ ctx (Walk.annotationName t) := by
  unfold Walk.annotationName
  cases t.child? .name with
  | none => exact .pure _
  | some name => exact .bind .setting fun _ => .bind (.of (.typeName _)) fun _ => .pure _

lemma elementFrom {type : Walk (Option TypeName)} (t : Tree)
    (hcs : SoundParts binding source κ ctx cs)
    (hplain : t.kind.holdsCallables = false → PlainParts cs)
    (htype : Evaluation binding κ ctx type) :
    Evaluation binding κ ctx (Walk.elementFrom t cs type) := by
  have hitems : ∀ c ∈ cs.named.filter fun c => !c.1.kind.isComment,
      Evaluation binding κ ctx c.2.value.element := by
    intro c hc
    exact (hcs c (Valued.mem_of_mem_named (List.mem_filter.mp hc).1)).meaning.element
  have hnested (hkind : t.kind.holdsCallables = false) : Evaluation binding κ ctx
      (do return ElementValue.nested (← Walk.annotationName t) (← Walk.elementsFrom cs)) :=
    .bind (.annotationName t) fun _ => .bind (.elementsFrom hcs (hplain hkind)) fun _ => .pure _
  unfold Walk.elementFrom
  split
  · exact .bind (.mapM hitems) fun _ => .pure _
  · exact .bind (.mapM hitems) fun _ => .pure _
  · next hkind => exact hnested (hkind ▸ rfl)
  · next hkind => exact hnested (hkind ▸ rfl)
  · exact .bind (.text t) fun _ => .pure _
  · cases t.named.head? with
    | none => exact .bind (.text t) fun _ => .pure _
    | some c => exact .bind (.typeNameAt c 0) fun _ => .pure _
  · exact .bind htype fun _ => .bind (.text t) fun _ => .pure _

end Evaluation

end Xref.Reference
