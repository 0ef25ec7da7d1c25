import Mathlib.Tactic.Lemma
import Xref.Declaration.Collect

/-!
# What components add to a record

A component adds its accessor where the body has none, and all components together the canonical
constructor where the body has no constructor for as many of them, whatever the types of those.
-/
open List

namespace Xref.Declaration

open Java Syntax

def isAccessor (name : String) (m : MethodInfo) : Bool :=
  !m.isConstructor && m.name == name && m.params.isEmpty

def constructs (params : List TypeRef) (m : MethodInfo) : Bool :=
  m.isConstructor && m.params == params

def constructsFrom (arity : Nat) (m : MethodInfo) : Bool :=
  m.isConstructor && m.params.length == arity

/-- The methods of a record, from those that its body declares. -/
structure Completes (components : List Parameter) (ctx : Context) (declared all : List MethodInfo) :
    Prop where
  accessors : ∀ c ∈ components,
    all.countP (isAccessor c.name) = max 1 (declared.countP (isAccessor c.name))
  canonical : all.countP (constructs (paramRefs components ctx)) =
    if declared.any (constructsFrom components.length) then
      declared.countP (constructs (paramRefs components ctx))
    else 1

def addComponent (ctx : Context) (m : Members) (c : Parameter) : Members :=
  let m := m.addField ⟨c.name, writtenRef c.type ctx, false⟩
  if m.methods.any (isAccessor c.name) then m
  else m.addMethod (methodInfo c.name [] (some (writtenRef c.type ctx)) false false)

lemma addComponents_eq (components : List Parameter) (simple : String) (ctx : Context)
    (members : Members) : addComponents components simple ctx members =
      let all := components.foldl (addComponent ctx) members
      if all.methods.any (constructsFrom components.length) then all
      else all.addMethod
        (constructorInfo simple (paramRefs components ctx) (hasVarargs components)) :=
  rfl

/-- The methods after adding accessors for `components`. -/
structure AddsAccessors (components : List Parameter) (before after : List MethodInfo) : Prop where
  kept : ∃ added, after = before ++ added ∧ ∀ m ∈ added, m.isConstructor = false
  count : ∀ name, after.countP (isAccessor name) =
    if components.any (·.name == name) then max 1 (before.countP (isAccessor name))
    else before.countP (isAccessor name)

lemma addComponent_accessors (ctx : Context) (m : Members) (c : Parameter) :
    AddsAccessors [c] m.methods (addComponent ctx m c).methods := by
  have haccessor (name : String) :
      isAccessor name (methodInfo c.name [] (some (writtenRef c.type ctx)) false false) =
        (c.name == name) := by
    simp [isAccessor, methodInfo]
  unfold addComponent
  dsimp only [Members.addField]
  split
  case isTrue hany =>
    refine ⟨⟨[], by simp, by simp⟩, fun name => ?_⟩
    by_cases hname : c.name = name
    · subst hname
      have hpos : 0 < m.methods.countP (isAccessor c.name) :=
        countP_pos_iff.mpr (any_eq_true.mp hany)
      rw [if_pos (by simp), Nat.max_eq_right hpos]
    · simp [hname]
  case isFalse hnone =>
    refine ⟨⟨[_], rfl, by simp [methodInfo]⟩, fun name => ?_⟩
    dsimp only [Members.addMethod]
    rw [countP_append, countP_singleton, haccessor]
    by_cases hname : c.name = name
    · subst hname
      have hzero : m.methods.countP (isAccessor c.name) = 0 :=
        countP_eq_zero.mpr fun a ha h => hnone (any_eq_true.mpr ⟨a, ha, h⟩)
      simp [hzero]
    · simp [hname]

lemma AddsAccessors.cons {c : Parameter} {components : List Parameter}
    {first second third : List MethodInfo} (h : AddsAccessors [c] first second)
    (h' : AddsAccessors components second third) : AddsAccessors (c :: components) first third := by
  obtain ⟨added, rfl, hadded⟩ := h.kept
  obtain ⟨added', rfl, hadded'⟩ := h'.kept
  refine ⟨⟨added ++ added', append_assoc _ _ _, fun m hm => ?_⟩, fun name => ?_⟩
  · rcases mem_append.mp hm with hm | hm
    · exact hadded m hm
    · exact hadded' m hm
  · rw [h'.count, h.count]
    by_cases hname : c.name = name
    · simp [hname, ← Nat.max_assoc]
    · simp [hname]

lemma foldl_addComponent (components : List Parameter) (ctx : Context) (m : Members) :
    AddsAccessors components m.methods (components.foldl (addComponent ctx) m).methods := by
  induction components generalizing m with
  | nil => exact ⟨⟨[], by simp, by simp⟩, fun _ => by simp⟩
  | cons c components ih => exact (addComponent_accessors ctx m c).cons (ih _)

section

variable (components : List Parameter) (simple : String) (ctx : Context) (members : Members)

/-- Accessors are no constructors, so only what the body declares can stand for the canonical one.
-/
lemma any_constructsFrom_foldl (arity : Nat) :
    (components.foldl (addComponent ctx) members).methods.any (constructsFrom arity) =
      members.methods.any (constructsFrom arity) := by
  obtain ⟨added, hadded, hmethods⟩ := (foldl_addComponent components ctx members).kept
  have hnone : added.any (constructsFrom arity) = false :=
    any_eq_false.mpr fun m hm => by simp [constructsFrom, hmethods m hm]
  rw [hadded, any_append, hnone, Bool.or_false]

lemma completes_addComponents : Completes components ctx members.methods
    (addComponents components simple ctx members).methods := by
  obtain ⟨⟨added, hadded, hmethods⟩, hcount⟩ := foldl_addComponent components ctx members
  have hcanonical : (components.foldl (addComponent ctx) members).methods.countP
      (constructs (paramRefs components ctx)) =
        members.methods.countP (constructs (paramRefs components ctx)) := by
    have hnone : added.countP (constructs (paramRefs components ctx)) = 0 :=
      countP_eq_zero.mpr fun m hm => by simp [constructs, hmethods m hm]
    rw [hadded, countP_append, hnone, Nat.add_zero]
  have haccessor (c : Parameter) (hc : c ∈ components) :
      components.any (fun x => x.name == c.name) := any_eq_true.mpr ⟨c, hc, by simp⟩
  rw [addComponents_eq]
  dsimp only
  rw [any_constructsFrom_foldl]
  split
  case isTrue hany =>
    exact ⟨fun c hc => by rw [hcount, if_pos (haccessor c hc)], by rw [if_pos hany, hcanonical]⟩
  case isFalse hnone =>
    have hzero : members.methods.countP (constructs (paramRefs components ctx)) = 0 := by
      refine countP_eq_zero.mpr fun m hm h => hnone (any_eq_true.mpr ⟨m, hm, ?_⟩)
      simp only [constructs, Bool.and_eq_true, beq_iff_eq] at h
      simp [constructsFrom, h.1, h.2, paramRefs]
    refine ⟨fun c hc => ?_, ?_⟩
    · rw [← hcount c.name |>.trans (if_pos (haccessor c hc))]
      simp [Members.addMethod, isAccessor, constructorInfo]
    · rw [if_neg hnone]
      simp [Members.addMethod, hcanonical, hzero, constructs, constructorInfo]

lemma methods_addComponents :
    members.methods ⊆ (addComponents components simple ctx members).methods := by
  obtain ⟨added, hadded, -⟩ := (foldl_addComponent components ctx members).kept
  rw [addComponents_eq]
  dsimp only
  split
  · exact hadded ▸ subset_append_left _ _
  · rw [Members.addMethod, hadded, append_assoc]
    exact subset_append_left _ _

variable {members}

/-- A record whose body declares no other constructor for as many components has the canonical one.
-/
lemma canonical_mem_addComponents
    (h : ∀ m ∈ members.methods, m.isConstructor → m.params.length ≠ components.length) :
    constructorInfo simple (paramRefs components ctx) (hasVarargs components) ∈
      (addComponents components simple ctx members).methods := by
  have hnone : members.methods.any (constructsFrom components.length) = false :=
    any_eq_false.mpr fun m hm => by
      simpa [constructsFrom] using h m hm
  rw [addComponents_eq]
  dsimp only
  rw [any_constructsFrom_foldl, hnone]
  exact mem_append_right _ (mem_singleton_self _)

end

end Xref.Declaration
