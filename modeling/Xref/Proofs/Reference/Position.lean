import Xref.Proofs.Reference.Visit
import Xref.Proofs.Syntax.Shaping
import Xref.Reference.Analysis

/-!
# Calls by their positions

The context of a call is that of the unit, with what is declared by the methods and types around
it. A call is remembered only while the types around it stay the same, and the methods around it
are those that its position says. So all trees of a unit are sound.
-/
open List

namespace Xref.Syntax

/-- The part of a tree that the numbers of children lead to, from the outside in. -/
def Tree.at? (t : Tree) : List Nat → Option Tree
  | [] => some t
  | i :: rest => t.children[i]?.bind fun c => c.at? rest

lemma Tree.at?_append (t : Tree) (q q' : List Nat) :
    t.at? (q ++ q') = (t.at? q).bind fun s => s.at? q' := by
  induction q generalizing t with
  | nil => rfl
  | cons i q ih =>
    simp only [cons_append, at?, ih]
    cases t.children[i]? <;> rfl

lemma Tree.at?_child {unit t c : Tree} {p : Tree.Position} {i : Nat}
    (ht : unit.at? p.reverse = some t) (hc : t.children[i]? = some c) :
    unit.at? (i :: p).reverse = some c := by
  rw [reverse_cons, at?_append, ht]
  simp [at?, hc]

end Xref.Syntax

namespace Xref.Reference

open Declaration Java Resolve Syntax Tree

def variablesAt (source : List Char) (t : Tree) : List Nat → List TypeVariable
  | [] => []
  | i :: rest =>
    declared source t ++ (t.children[i]?.elim [] fun c => variablesAt source c rest)

/-- The tree `t` at `p` has the context `ctx`, and its parts have the contexts that follow. -/
def Aligned (source : List Char) (κ : Contexts) (ctx : Context)
    (p : Tree.Position) (t : Tree) : Prop :=
  ∀ q, κ (q ++ p) = ctx.declaring (variablesAt source t q.reverse)

variable {source : List Char} {κ : Contexts} {ctx : Context} {p : Tree.Position} {t : Tree}

lemma Aligned.self (h : Aligned source κ ctx p t) : κ p = ctx := by simpa [variablesAt] using h []

lemma Aligned.child (h : Aligned source κ ctx p t) {i : Nat} {c : Tree}
    (hc : t.children[i]? = some c) :
    Aligned source κ (ctx.declaring (declared source t)) (i :: p) c := by
  intro q
  have hq := h (q ++ [i])
  simp only [append_assoc, singleton_append, reverse_append, reverse_singleton,
    variablesAt, hc, Option.elim_some] at hq
  rw [hq, declaring_append]

lemma exists_aligned (source : List Char) (ctx : Context) (p : Tree.Position) (t : Tree) :
    ∃ κ, Aligned source κ ctx p t := by
  refine ⟨fun δ => ctx.declaring (variablesAt source t (δ.take (δ.length - p.length)).reverse), ?_⟩
  intro q
  have htake : (q ++ p).take ((q ++ p).length - p.length) = q := by simp
  simp only [htake]

def bindingIn (unit : Tree) (p : Tree.Position) : Walk CallOutcome :=
  match unit.at? p.reverse with
  | some t => Walk.bindInvocation t (meaning p t).parts
  | none => pure {}

section

variable (f : Tree.Position → Tree → Sense → Meaning)

lemma parts_decorate (p : Tree.Position) (t : Tree) : (decorate f p t).parts =
    t.children.mapIdx fun i c => (c, decorate f (i :: p) c) := by
  rw [decorate_eq]
  rfl

lemma value_decorate (p : Tree.Position) (t : Tree) :
    (decorate f p t).value = f p t (decorate f p t).parts := by
  rw [parts_decorate, decorate_eq]
  rfl

variable {f} in
lemma mem_parts_decorate {c : SensePart} (h : c ∈ (decorate f p t).parts) :
    ∃ i child, t.children[i]? = some child ∧ c = (child, decorate f (i :: p) child) := by
  rw [parts_decorate] at h
  obtain ⟨i, hi, rfl⟩ := mem_mapIdx.mp h
  exact ⟨i, t.children[i], getElem?_eq_getElem hi, rfl⟩

lemma trees_decorate (p : Tree.Position) (t : Tree) :
    (decorate f p t).parts.map Prod.fst = t.children := by
  rw [parts_decorate]
  refine ext_getElem? fun i => ?_
  cases h : t.children[i]? <;> simp [h]

end

lemma value_meaning (p : Tree.Position) (t : Tree) :
    (meaning p t).value = Walk.meaningFrom p t (meaning p t).parts :=
  value_decorate _ p t

lemma mem_parts_meaning {c : SensePart} (h : c ∈ (meaning p t).parts) :
    ∃ i child, t.children[i]? = some child ∧ c = (child, meaning (i :: p) child) :=
  mem_parts_decorate h

lemma trees_meaning (p : Tree.Position) (t : Tree) :
    (meaning p t).parts.map Prod.fst = t.children :=
  trees_decorate _ p t

lemma plainParts_meaning (hshaped : t.Shaped) (h : t.kind.holdsCallables = false) :
    PlainParts (meaning p t).parts := by
  intro c hc
  obtain ⟨i, child, hi, rfl⟩ := mem_parts_meaning hc
  exact hshaped.plain h child (mem_of_getElem? hi)

/-- The step of the induction: a tree is sound if its children are. -/
lemma soundAt_of_children {unit : Tree} (ht : unit.at? p.reverse = some t)
    (halign : Aligned source κ ctx p t) (hshaped : t.Shaped)
    (hparts : SoundParts (bindingIn unit) source κ (ctx.declaring (declared source t))
      (meaning p t).parts) : SoundAt (bindingIn unit) source κ ctx (t, meaning p t) := by
  refine .mk ?_ hparts
  rw [value_meaning]
  cases hkind : t.kind.isCallable with
  | true => exact Meaning.sound_of_callable hkind p _
  | false =>
    have hbinding : bindingIn unit p = Walk.bindInvocation t (meaning p t).parts := by
      simp only [bindingIn, ht]
    rw [declared_of_plain hkind, declaring_nil] at hparts
    exact Meaning.sound_of_plain halign.self hbinding hparts (plainParts_meaning hshaped)

lemma soundAt_of_shaped (unit : Tree) (h : t.Shaped) (ht : unit.at? p.reverse = some t)
    (halign : Aligned source κ ctx p t) :
    SoundAt (bindingIn unit) source κ ctx (t, meaning p t) := by
  induction t using induction generalizing p κ ctx with
  | step t ih =>
    refine soundAt_of_children ht halign h fun c hc => ?_
    obtain ⟨i, child, hi, rfl⟩ := mem_parts_meaning hc
    have hmem := mem_of_getElem? hi
    exact ih child hmem (h.parts child hmem) (at?_child ht hi) (halign.child hi)

end Xref.Reference
