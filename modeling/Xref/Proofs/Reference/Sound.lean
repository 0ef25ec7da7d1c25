import Xref.Proofs.Reference.Evaluation
import Xref.Proofs.Syntax.Shape
import Xref.Reference.Visit

/-!
# Sound meanings

The meaning of a tree is sound at a place if all that it finds out there comes out as it does where
calls are never remembered. A tree is `SoundAt` a context if it and all of its parts are. A
method declares type variables for its parts, so these stand in a larger context.
-/
open List

namespace Xref.Syntax.Valued

variable {α : Type} {cs : Valued α} {c : Tree × α} {r : Role} {k : Kind}

lemma mem_of_child? (h : cs.child? r = some c) : c ∈ cs := mem_of_find?_eq_some h

lemma mem_of_childOf? (h : cs.childOf? k = some c) : c ∈ cs := mem_of_find?_eq_some h

lemma kind_of_childOf? (h : cs.childOf? k = some c) : c.1.kind = k := by
  have hkind : (c.1.kind == k) = true := find?_some (p := fun c : Tree × α => c.1.kind == k) h
  exact eq_of_beq hkind

lemma mem_of_mem_named (h : c ∈ cs.named) : c ∈ cs := (mem_filter.mp h).1

lemma mem_of_mem_childrenIn (h : c ∈ cs.childrenIn r) : c ∈ cs := (mem_filter.mp h).1

lemma exists_of_mem_child {β : Type} {f : Tree × α → List β} {b : β}
    (h : b ∈ ((cs.child? r).map f).getD []) : ∃ c ∈ cs, b ∈ f c := by
  cases hchild : cs.child? r with
  | none => simp [hchild] at h
  | some c =>
    rw [hchild] at h
    exact ⟨c, mem_of_child? hchild, h⟩

end Xref.Syntax.Valued

namespace Xref.Reference

open Declaration Java Resolve Syntax

/-- The type variables that a tree declares for its parts. Those of a type are not among them,
because calls are forgotten where its body begins. -/
def declared (source : List Char) (t : Tree) : List TypeVariable :=
  if t.kind.isCallable ∧ (t.child? .name).isSome then t.typeParameters source else []

abbrev SensePart := Tree × Decorated Meaning

variable (binding : Bindings) (source : List Char) (κ : Contexts)

/-- All that can be found out by a meaning is sound. -/
structure Meaning.Sound (ctx : Context) (m : Meaning) : Prop where
  type : Evaluation binding κ ctx m.type
  leftmost : Evaluation binding κ ctx m.leftmost
  steps : ∀ step ∈ m.steps, ∀ left, Evaluation binding κ ctx (step left)
  operand : Evaluation binding κ ctx m.operand
  element : Evaluation binding κ ctx m.element
  calls : ∀ link ∈ m.links, Evaluation binding κ ctx link.call

/-- A tree and all of its parts have sound meanings. -/
inductive SoundAt : Context → SensePart → Prop where
  | mk {ctx : Context} {t : Tree} {m : Decorated Meaning}
      (hmeaning : m.value.Sound binding κ ctx)
      (hparts : ∀ c ∈ m.parts, SoundAt (ctx.declaring (declared source t)) c) :
      SoundAt ctx (t, m)

def SoundParts (ctx : Context) (cs : Sense) : Prop :=
  ∀ c ∈ cs, SoundAt binding source κ ctx c

def PlainParts (cs : Sense) : Prop := ∀ c ∈ cs, c.1.kind.isCallable = false

variable {binding source κ} {ctx : Context} {c : SensePart} {t : Tree}

lemma declared_of_plain (h : t.kind.isCallable = false) : declared source t = [] := by
  simp [declared, h]

lemma declared_of_named {name : Tree} (hkind : t.kind.isCallable) (h : t.child? .name = some name) :
    declared source t = t.typeParameters source := by
  simp [declared, hkind, h]

@[simp] lemma declaring_nil : ctx.declaring [] = ctx := by simp [Context.declaring]

lemma declaring_append (vars vars' : List TypeVariable) :
    (ctx.declaring vars).declaring vars' = ctx.declaring (vars ++ vars') := by
  simp [Context.declaring]

namespace SoundAt

lemma meaning (h : SoundAt binding source κ ctx c) : c.2.value.Sound binding κ ctx := by
  cases h with
  | mk hmeaning _ => exact hmeaning

lemma parts (h : SoundAt binding source κ ctx c) (hplain : c.1.kind.isCallable = false) :
    SoundParts binding source κ ctx c.2.parts := by
  cases h with
  | mk _ hparts => rwa [declared_of_plain hplain, declaring_nil] at hparts

end SoundAt

namespace SoundParts

variable {cs : Sense} {r : Role}

lemma child (hcs : SoundParts binding source κ ctx cs) (h : cs.child? r = some c) :
    c.2.value.Sound binding κ ctx :=
  (hcs c (Valued.mem_of_child? h)).meaning

lemma inside (hcs : SoundParts binding source κ ctx cs) (hplain : PlainParts cs)
    (h : cs.child? r = some c) : SoundParts binding source κ ctx c.2.parts :=
  (hcs c (Valued.mem_of_child? h)).parts (hplain c (Valued.mem_of_child? h))

end SoundParts

end Xref.Reference
