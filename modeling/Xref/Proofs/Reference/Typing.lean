import Xref.Proofs.Reference.Asking
import Xref.Proofs.Reference.Sound

/-!
# Names and expressions are evaluated

Every rule that gives a meaning to a name, an expression or a call is an evaluation, if the trees
that it looks at have such meanings too.
-/
open List

namespace Xref.Reference

open Declaration Java Resolve Syntax Text Walk

variable {binding : Bindings} {κ : Contexts} {ctx : Context}

namespace Evaluation

variable {α β : Type} {l : List α}

lemma ite (c : Prop) [Decidable c] {x y : Walk α} (hx : Evaluation binding κ ctx x)
    (hy : Evaluation binding κ ctx y) : Evaluation binding κ ctx (if c then x else y) := by
  by_cases h : c
  · rwa [if_pos h]
  · rwa [if_neg h]

lemma foldlM {f : β → α → Walk β} (hf : ∀ b, ∀ a ∈ l, Evaluation binding κ ctx (f b a)) (b : β) :
    Evaluation binding κ ctx (l.foldlM f b) := by
  induction l generalizing b with
  | nil => exact .pure b
  | cons a l ih =>
    rw [foldlM_cons]
    exact .bind (hf b a mem_cons_self) fun b => ih (fun b a ha => hf b a (mem_cons_of_mem _ ha)) b

lemma mapM {f : α → Walk β} (hf : ∀ a ∈ l, Evaluation binding κ ctx (f a)) :
    Evaluation binding κ ctx (l.mapM f) := by
  induction l with
  | nil => exact .pure []
  | cons a l ih =>
    rw [mapM_cons]
    exact .bind (hf a mem_cons_self) fun b =>
      .bind (ih fun a ha => hf a (mem_cons_of_mem _ ha)) fun bs => .pure (b :: bs)

lemma text (t : Tree) : Evaluation binding κ ctx (text t) := .bind .setting fun _ => .pure _

lemma erased (t : Tree) : Evaluation binding κ ctx (erased t) := .bind .setting fun _ => .pure _

lemma dimensions (t : Tree) : Evaluation binding κ ctx (dimensions t) :=
  .bind .setting fun _ => .pure _

lemma currentType : Evaluation binding κ ctx currentType := .bind .setting fun _ => .pure _

lemma unitName (t : Tree) : Evaluation binding κ ctx (unitName t) := .bind .setting fun _ => .pure _

lemma spanOf (t : Tree) : Evaluation binding κ ctx (spanOf t) := .bind .setting fun _ => .pure _

lemma typeNameAt (t : Tree) (dims : Nat) : Evaluation binding κ ctx (typeNameAt t dims) :=
  .bind (.erased t) fun _ => .of (.typeName _)

lemma dotted (t : Tree) : Evaluation binding κ ctx (dotted t) := .bind .setting fun _ => .pure _

section

variable {source : List Char} {cs : Sense}

lemma outerType (type : Tree) (hcs : SoundParts binding source κ ctx cs) :
    Evaluation binding κ ctx (Walk.outerType cs type) := by
  unfold Walk.outerType
  dsimp only
  split
  case h_1 houter =>
    exact (hcs _ (Valued.mem_of_mem_named (mem_of_find?_eq_some houter))).meaning.type
  case h_2 => exact .pure none

lemma anonymousName (t : Tree) : Evaluation binding κ ctx (Walk.anonymousName t) := by
  unfold Walk.anonymousName
  cases t.childOf? .classBody with
  | none => exact .pure none
  | some body => exact .unitName body

lemma createdDims (t : Tree) : Evaluation binding κ ctx (createdDims t) :=
  .bind .setting fun _ => .pure _

lemma typeIn (r : Role) (hcs : SoundParts binding source κ ctx cs) :
    Evaluation binding κ ctx (Walk.typeIn cs r) := by
  unfold Walk.typeIn
  cases h : cs.child? r with
  | none => exact .pure none
  | some c => exact (hcs.child h).type

lemma typeOfFirst (hcs : SoundParts binding source κ ctx cs) :
    Evaluation binding κ ctx (Walk.typeOfFirst cs) := by
  unfold Walk.typeOfFirst
  cases h : cs.named.head? with
  | none => exact .pure none
  | some c => exact (hcs c (Valued.mem_of_mem_named (mem_of_mem_head? h))).meaning.type

lemma binaryType (operator : String) (left : Option TypeName) {right : Walk (Option TypeName)}
    (hright : Evaluation binding κ ctx right) :
    Evaluation binding κ ctx (Reference.binaryType operator left right) := by
  refine .ite _ (.pure _) (.bind hright fun right => .ite _ (.pure _) ?_)
  cases left with
  | none => exact .pure none
  | some l =>
    cases right with
    | none => exact .pure none
    | some r => exact .ite _ (.pure _) (.ite _ (.pure _) (.pure _))

lemma leftmostOf (hcs : SoundParts binding source κ ctx cs) :
    Evaluation binding κ ctx (Walk.leftmostOf cs) := by
  unfold Walk.leftmostOf
  cases h : cs.child? .left with
  | none => exact .pure none
  | some c => exact (hcs.child h).leftmost

section

variable (t : Tree) (hcs : SoundParts binding source κ ctx cs)
include hcs

lemma accessOperand : Evaluation binding κ ctx (Walk.accessOperand t cs) := by
  unfold Walk.accessOperand
  split
  case h_1 object meaning field hobject hfield =>
    refine .ite _ (.bind (.dotted object) fun name => ?_) ?_
    · cases name with
      | none => exact .pure _
      | some name => exact .bind (.of (.resolveType? name)) fun _ => .pure _
    · exact .bind (hcs.child hobject).operand fun _ =>
        .bind (.text field) fun _ => .of (.memberOperand _ _)
  case h_2 => exact .pure _

lemma operandFrom {type : Walk (Option TypeName)} (htype : Evaluation binding κ ctx type) :
    Evaluation binding κ ctx (Walk.operandFrom t cs type) := by
  unfold Walk.operandFrom
  split
  · exact .bind (.text t) fun _ => .of (.nameOperand _)
  · exact .accessOperand t hcs
  · exact .bind (.of .thisType) fun _ => .pure _
  · exact .bind (.of .superType) fun _ => .pure _
  · exact .bind htype fun _ => .pure _

lemma creationOwner : Evaluation binding κ ctx (Walk.creationOwner t cs) := by
  unfold Walk.creationOwner
  cases t.child? .type with
  | none => exact .pure none
  | some type =>
    refine .bind (.erased type) fun written => .bind (.outerType type hcs) fun outer => ?_
    have hwritten : Evaluation binding κ ctx (do return some (← Walk.typeName written)) :=
      .bind (.of (.typeName written)) fun _ => .pure _
    cases outer with
    | none => exact hwritten
    | some outer =>
      refine .bind (.of (.pose (.memberType outer.name written) rfl)) fun member => ?_
      cases member with
      | none => exact hwritten
      | some member => exact .pure _

lemma createdType : Evaluation binding κ ctx (createdType t cs) := by
  refine .bind (.anonymousName t) fun name => ?_
  cases name with
  | none => exact .creationOwner t hcs
  | some name => exact .pure _

lemma binaryStep
    (left : Option TypeName) : Evaluation binding κ ctx (Walk.binaryStep t cs left) := by
  unfold Walk.binaryStep
  cases t.child? .operator with
  | none => exact .pure none
  | some operator => exact .bind (.text operator) fun _ => .binaryType _ left (.typeIn .right hcs)

lemma stepsOf : ∀ step ∈ stepsOf t cs, ∀ left, Evaluation binding κ ctx (step left) := by
  intro step hstep
  rcases mem_append.mp hstep with hstep | hstep
  · obtain ⟨c, hc, hstep⟩ := Valued.exists_of_mem_child hstep
    exact (hcs c hc).meaning.steps step hstep
  · obtain rfl := mem_singleton.mp hstep
    exact .binaryStep t hcs

lemma typeFrom {call : Walk CallOutcome}
    (hcall : t.kind = .methodInvocation → Evaluation binding κ ctx call) :
    Evaluation binding κ ctx (Walk.typeFrom t cs call) := by
  unfold Walk.typeFrom
  split
  -- literals, and all that has no type
  any_goals exact .pure _
  any_goals exact .bind (.text t) fun _ => .pure _
  · exact .of .thisType
  · exact .bind (.text t) fun _ => .bind (.of (.value? _)) fun _ => .pure _
  · refine .bind (.accessOperand t hcs) fun operand => ?_
    cases operand <;> exact .pure _
  · next hkind => exact .bind (hcall hkind) fun _ => .pure _
  · exact .createdType t hcs
  · cases t.child? .type with
    | none => exact .pure none
    | some type => exact .bind (.createdDims t) fun _ => .bind (.typeNameAt type _) fun _ => .pure _
  · cases t.child? .type with
    | none => exact .pure none
    | some type => exact .bind (.typeNameAt type 0) fun _ => .pure _
  · exact .bind (.typeIn .array hcs) fun _ => .pure _
  · exact .typeOfFirst hcs
  · exact .typeOfFirst hcs
  · refine .bind (.typeIn .consequence hcs) fun type => ?_
    cases type.filter _ with
    | none => exact .typeIn .alternative hcs
    | some type => exact .pure _
  · exact .bind (.leftmostOf hcs) fun leftmost =>
      .foldlM (fun left step hstep => .stepsOf t hcs step hstep left) leftmost
  · refine .bind (.typeIn .operand hcs) fun operand => ?_
    cases operand with
    | none => exact .pure none
    | some operand => exact .ite _ (.pure _) (.pure _)
  · exact .typeIn .left hcs

end

end

end Evaluation

end Xref.Reference
