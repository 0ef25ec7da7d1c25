import Xref.Proofs.Reference.Call

/-!
# Meanings are sound

The meaning of a tree is sound if the meanings of its parts are.
-/
namespace Xref.Reference

open Declaration Java Resolve Syntax Text Walk

variable {binding : Bindings} {κ : Contexts} {ctx : Context} {source : List Char} {cs : Sense}

namespace Evaluation

lemma typedParameters (t : Tree) : Evaluation binding κ ctx (Walk.typedParameters t) :=
  .bind .setting fun _ => .mapM fun p _ => .bind (.of (.typeName p.type)) fun _ => .pure _

lemma isVar (type : Tree) : Evaluation binding κ ctx (Walk.isVar type) :=
  .bind (.text type) fun _ => .pure _

lemma reportable (type : Tree) (name : Option TypeName) :
    Evaluation binding κ ctx (Walk.reportable type name) :=
  .bind (.isVar type) fun _ => .pure _

lemma staticMember? (value : Tree) : Evaluation binding κ ctx (Walk.staticMember? value) := by
  refine .ite _ (.pure none) (.bind (.dotted value) fun name => ?_)
  cases name with
  | none => exact .pure none
  | some name =>
    dsimp only
    cases cutLast '.' name with
    | none => exact .pure none
    | some cut =>
      refine .bind (.of (.value? _)) fun _ => .ite _ (.pure none)
        (.bind (.of (.resolveType? cut.1)) fun owner => ?_)
      cases owner with
      | none => exact .bind (.of (.recover name)) fun _ => .pure _
      | some owner => exact .bind (.of (.findField owner cut.2)) fun _ => .pure _

lemma variableType (type declarator : Tree) (hcs : SoundParts binding source κ ctx cs) :
    Evaluation binding κ ctx (Walk.variableType type declarator cs) :=
  .bind (.isVar type) fun _ => .ite _ (.bind (.typeIn .value hcs) fun _ => .pure _)
    (.bind (.dimensions declarator) fun _ => .bind (.typeNameAt type _) fun _ => .pure _)

lemma loopType (t type : Tree) (hcs : SoundParts binding source κ ctx cs) :
    Evaluation binding κ ctx (Walk.loopType t type cs) :=
  .bind (.isVar type) fun _ => .ite _ (.bind (.typeIn .value hcs) fun _ => .pure _)
    (.bind (.dimensions t) fun _ => .bind (.typeNameAt type _) fun _ => .pure _)

end Evaluation

namespace Meaning

variable {t : Tree}

lemma meaningFrom_of_callable (hkind : t.kind.isCallable) (p : Tree.Position) (cs : Sense) :
    meaningFrom p t cs =
      { type := pure none
        leftmost := pure none
        steps := []
        operand := do return .value (← pure none)
        element := do
          let known := (← pure none).filter TypeName.isResolved
          return .literal (known.map TypeName.name) (← Walk.text t)
        links := []
        visit := visitFrom t cs []
        operands := [visitFrom t cs []] } := by
  unfold meaningFrom Walk.typeFrom Walk.operandFrom Walk.elementFrom linksFrom
  rcases Kind.isCallable_cases hkind with h | h | h | h <;> rw [h] <;> rfl

lemma sound_of_callable (hkind : t.kind.isCallable) (p : Tree.Position) (cs : Sense) :
    (meaningFrom p t cs).Sound binding κ ctx := by
  rw [meaningFrom_of_callable hkind]
  exact {
    type := .pure none
    leftmost := .pure none
    steps := fun step hstep => by cases hstep
    operand := .bind (.pure none) fun _ => .pure _
    element := .bind (.pure none) fun _ => .bind (.text t) fun _ => .pure _
    calls := fun link hlink => by cases hlink }

lemma mem_linksFrom {call : Walk CallOutcome} {link : Link} (h : link ∈ linksFrom t cs call) :
    (t.kind = .methodInvocation ∧ link = linkFrom t cs call) ∨
      ∃ c ∈ cs, link ∈ c.2.value.links := by
  unfold linksFrom at h
  split at h
  case isTrue hkind =>
    rcases List.mem_cons.mp h with rfl | h
    · exact .inl ⟨eq_of_beq hkind, rfl⟩
    · exact .inr (Valued.exists_of_mem_child h)
  case isFalse => cases h

lemma sound_of_plain {p : Tree.Position} (hp : κ p = ctx)
    (hbinding : binding p = Walk.bindInvocation t cs) (hcs : SoundParts binding source κ ctx cs)
    (hplain : t.kind.holdsCallables = false → PlainParts cs) :
    (meaningFrom p t cs).Sound binding κ ctx := by
  have hcall (h : t.kind = .methodInvocation) : Evaluation binding κ ctx
      (rememberedCall p (Walk.bindInvocation t cs)) := by
    have hbind : Evaluation binding κ ctx (Walk.bindInvocation t cs) :=
      .bindInvocation t hcs (hplain (h ▸ rfl))
    rw [← hbinding] at hbind ⊢
    exact .call p hp hbind
  have htype := Evaluation.typeFrom t hcs hcall
  refine {
    type := htype
    leftmost := .ite _ (.leftmostOf hcs) htype
    steps := fun step hstep => ?steps
    operand := .operandFrom t hcs htype
    element := .elementFrom t hcs hplain htype
    calls := fun link hlink => ?calls }
  case steps =>
    change step ∈ (if t.kind == .binaryExpression then Walk.stepsOf t cs else []) at hstep
    split at hstep
    · exact .stepsOf t hcs step hstep
    · cases hstep
  case calls =>
    rcases mem_linksFrom hlink with ⟨hkind, rfl⟩ | ⟨c, hc, hlink⟩
    · exact hcall hkind
    · exact (hcs c hc).meaning.calls link hlink

end Meaning

end Xref.Reference
