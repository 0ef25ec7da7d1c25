import Xref.Proofs.Reference.TracingCode

/-!
# Scopes along a walk

Finding and reporting names leaves the scopes as they are, and every local class that a walk binds
in them has its name from the unit.
-/
open List Option

namespace Xref.Reference

open Declaration Java Resolve Syntax Text Walk

variable {α : Type} {x : Walk α}

lemma scopes_rememberedCall {p : Tree.Position} {x : Walk CallOutcome} {place : Place}
    (h : ∀ s, (x place s).2.scopes = s.scopes) (s : WalkState) :
    (rememberedCall p x place s).2.scopes = s.scopes := by
  have hrun := h s
  rcases hx : x place s with ⟨anew, s'⟩
  rw [hx] at hrun
  unfold rememberedCall
  simp only [hx]
  split
  · rfl
  · split <;> exact hrun
  · exact hrun

lemma Evaluation.scopes {binding : Bindings} {contexts : Contexts} {ctx : Context}
    (h : Evaluation binding contexts ctx x) (place : Place) (s : WalkState) :
    (x place s).2.scopes = s.scopes := by
  induction h generalizing s with
  | pure | setting | ask | localType | localVariable => rfl
  | call p hp h ih => exact scopes_rememberedCall ih s
  | bind hx hf ihx ihf => exact (ihf _ _).trans (ihx s)

lemma Evaluates.scopes (h : Evaluates x) (place : Place) (s : WalkState) :
    (x place s).2.scopes = s.scopes := by
  obtain ⟨_, _, _, h⟩ := h
  exact h.scopes place s

lemma scopes_emitWith (construct : Construct) (name : TypeName) (span : Span)
    (values : Option ElementValues) (place : Place) (s : WalkState) :
    (emitWith construct name span values place s).2.scopes = s.scopes := by
  change (addRecord _ place s).2.scopes = s.scopes
  unfold addRecord
  split <;> rfl

def Walk.importAt : Option Import → Option Tree → Walk Unit
  | some i, some tree => do emitAt .importDeclaration (← importName i) tree
  | _, _ => pure ()

lemma visitImport_cases (t : Tree) (place : Place) :
    (∃ i tree, importOf? place.source t = some i ∧
      t.children.find? (fun c => [.identifier, .scopedIdentifier].contains c.kind) = some tree ∧
      ∀ s, visitImport t place s = emitAt .importDeclaration (importName i place s).1 tree place
          (importName i place s).2) ∨ ∀ s, visitImport t place s = ((), s) := by
  have hvisit (s : WalkState) : visitImport t place s = importAt (importOf? place.source t)
      (t.children.find? fun c => [.identifier, .scopedIdentifier].contains c.kind) place s := rfl
  cases himport : importOf? place.source t with
  | none => exact .inr fun s => by rw [hvisit, himport]; rfl
  | some i =>
    cases htree : t.children.find? fun c => [.identifier, .scopedIdentifier].contains c.kind with
    | none => exact .inr fun s => by rw [hvisit, himport, htree]; rfl
    | some tree => exact .inl ⟨i, tree, rfl, rfl, fun s => by rw [hvisit, himport, htree]; rfl⟩

lemma scopes_visitImport (t : Tree) (place : Place) (s : WalkState) :
    (visitImport t place s).2.scopes = s.scopes := by
  rcases visitImport_cases t place with ⟨i, tree, _, _, hvisit⟩ | hvisit
  · rw [hvisit]
    exact (scopes_emitWith .importDeclaration _ _ none place _).trans
      ((Evaluates.always fun _ _ _ => .of (.importName i)).scopes place s)
  · rw [hvisit]

lemma use_apply (find : String → Walk TypeName) (name : Tree) (values : Walk ElementValues)
    (place : Place) (s : WalkState) :
    (do
      let found ← find (name.dottedName (← setting).source)
      let values ← values
      emitWith .annotationUse found (← spanOf name) (some values) : Walk Unit) place s =
    emitWith .annotationUse (find (name.dottedName place.source) place s).1
      (place.lines.span name.start name.stop)
      (some (values place (find (name.dottedName place.source) place s).2).1) place
      (values place (find (name.dottedName place.source) place s).2).2 := rfl

def Place.isLocal (place : Place) : Bool :=
  place.path.head?.any fun t => !List.contains
    [.program, .classBody, .interfaceBody, .enumBodyDeclarations, .annotationTypeBody] t.kind

lemma bindLocalType_apply (name : String) (place : Place) (s : WalkState) :
    bindLocalType name place s =
      if place.isLocal then bindType (simpleName name) name place s else ((), s) := by
  change (if place.isLocal then bindType (simpleName name) name else pure ()) place s = _
  split <;> rfl

def AreNamed (scopes : List Scope) : Prop :=
  ∀ scope ∈ scopes, ∀ x ∈ scope.localTypes, x.2 ≠ ""

lemma AreNamed.change {scopes : List Scope} (h : AreNamed scopes) {f : Scope → Scope}
    (hf : ∀ scope ∈ scopes, ∀ x ∈ (f scope).localTypes, x.2 ≠ "") :
    AreNamed (changeInnermost f scopes) := by
  cases scopes with
  | nil => exact h
  | cons scope outer =>
    exact forall_mem_cons.mpr ⟨hf scope mem_cons_self, (forall_mem_cons.mp h).2⟩

structure Setting.IsNamed (st : Setting) : Prop where
  index : st.index.contains "" = false
  unit : ∀ t name, st.declarations.nameOf? t = some name → name ≠ ""

lemma Acts.areNamed {o : Scene} {κ : Contexts} {u : View} {a : Trace} (h : Acts o κ u a x)
    (hnamed : o.st.IsNamed) (r : Recall) {s : WalkState} (hs : AreNamed s.scopes) :
    AreNamed (x (u.placeIn o.st r) s).2.scopes := by
  induction h generalizing s with
  | evaluation h => exact h.scopes _ s ▸ hs
  | bindWith _ hP _ ihx ihf => exact ihf _ (hP r s) (ihx hs)
  | congr _ heq ih => exact heq r s ▸ ih hs
  | moved _ hplace ih => exact View.placeIn_congr hplace r ▸ ih hs
  | bindVariable name type =>
    exact hs.change (f := fun scope => { scope with vars := (name, type) :: scope.vars }) hs
  | @bindLocalType _ u t name h =>
    rw [bindLocalType_apply]
    split
    · refine hs.change
        (f := fun scope => { scope with localTypes := (simpleName name, name) :: scope.localTypes })
        fun scope hscope => ?_
      exact forall_mem_cons.mpr ⟨hnamed.unit t name h, hs scope hscope⟩
    · exact hs
  | emit _ name _ => exact scopes_emitWith _ name _ none _ s ▸ hs
  | report hx =>
    rw [reporting_apply]
    exact hx.scopes _ s ▸ hs
  | visitImport => exact scopes_visitImport _ _ s ▸ hs
  | use _ _ hvalues =>
    rw [use_apply typeName, scopes_emitWith, hvalues.scopes,
      (Evaluates.always fun _ _ _ => .of (.typeName _)).scopes _ s]
    exact hs
  | inScope _ ih =>
    -- the scope that was opened has no classes, and the innermost one is dropped
    have hbody := ih (s := { s with scopes := {} :: s.scopes })
      (forall_mem_cons.mpr ⟨fun _ h => (by cases h), hs⟩)
    exact fun scope hscope => hbody scope (mem_of_mem_drop hscope)
  | insideType _ _ ih => exact ih (s := { s with calls := [] }) hs
  | withVariables _ ih | inside _ ih | weaken _ _ ih => exact ih hs

end Xref.Reference
