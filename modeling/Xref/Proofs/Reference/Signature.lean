import Xref.Proofs.Reference.Calls

/-!
# Names that are signatures

A method is reported by its signature, whether it is declared or called and whether the call could
be bound or not. A call of a method has one name or two, all else has one.
-/
namespace Xref.Reference

open Declaration Java Resolve Syntax Text

/-- A name with a list of parameters at its end. -/
def IsSignature (name : String) : Prop := ∃ front params, name = front ++ "(" ++ params ++ ")"

lemma IsSignature.ne_empty {name : String} (h : IsSignature name) : name ≠ "" := by
  obtain ⟨front, params, rfl⟩ := h
  intro hempty
  have hlength := congrArg String.length hempty
  simp [String.length_append] at hlength

lemma isSignature_candidate (c : Candidate) : IsSignature c.signature := by
  unfold Candidate.signature
  split
  · exact ⟨c.declaringType, joinWith "," c.params, by simp only [String.append_assoc]⟩
  · exact ⟨c.declaringType ++ "." ++ c.name, joinWith "," c.params,
      by simp only [String.append_assoc]⟩

lemma isSignature_literalCall (receiver : Option String) (name : String)
    (types : List (Option String)) : IsSignature (literalCall receiver name types) := by
  let params := if types.all Option.isSome then joinWith "," (types.filterMap id) else ""
  cases receiver with
  | none => exact ⟨name, params, rfl⟩
  | some r =>
    exact ⟨r ++ "." ++ name, params, by simp only [literalCall, params, String.append_assoc]⟩

lemma name_declaredSignature (owner : String) (method : Option String) (params : List TypeName) :
    (Walk.declaredSignature owner method params).name =
      owner ++ (method.elim "" fun m => "." ++ m) ++ "(" ++
        joinWith "," (params.map TypeName.name) ++ ")" := by
  cases method with
  | none =>
    simp only [Walk.declaredSignature, Option.elim_none, String.append_empty, String.append_assoc]
    split <;> rfl
  | some m =>
    simp only [Walk.declaredSignature, Option.elim_some, String.append_assoc]
    split <;> rfl

lemma isSignature_declared (owner : String) (method : Option String) (params : List TypeName) :
    IsSignature (Walk.declaredSignature owner method params).name :=
  ⟨_, _, name_declaredSignature owner method params⟩

def Walk.Yields {α : Type} (P : α → Prop) (x : Walk α) : Prop := ∀ place s, P (x place s).1

namespace Walk.Yields

variable {α β : Type} {P : α → Prop} {Q : β → Prop} {x : Walk α} {f : α → Walk β}

lemma pure {a : α} (h : P a) : Walk.Yields P (pure a : Walk α) := fun _ _ => h

lemma bind (hx : Walk.Yields P x) (hf : ∀ a, P a → Walk.Yields Q (f a)) : Walk.Yields Q (x >>= f) :=
  fun place s => hf _ (hx place s) place (x place s).2

lemma last (hf : ∀ a, Walk.Yields Q (f a)) : Walk.Yields Q (x >>= f) :=
  fun place s => hf _ place (x place s).2

lemma ite (c : Prop) [Decidable c] {y : Walk α} (hx : Walk.Yields P x) (hy : Walk.Yields P y) :
    Walk.Yields P (if c then x else y) := by
  by_cases h : c
  · rwa [if_pos h]
  · rwa [if_neg h]

end Walk.Yields

variable {st : Setting} {m : Memory} {e : Event}

/-- There are at least so many names and at most so many, and all are signatures. -/
structure Signatures (least most : Nat) (names : List TypeName) : Prop where
  least : least ≤ names.length
  most : names.length ≤ most
  signatures : ∀ n ∈ names, IsSignature n.name

lemma Signatures.one {n : TypeName} (h : IsSignature n.name) {most : Nat} (hmost : 1 ≤ most) :
    Signatures 1 most [n] :=
  ⟨Nat.le_refl 1, hmost, List.forall_mem_singleton.mpr h⟩

/-- The names that a call can get: those of one method or two, or what is written. -/
inductive CallNames (callee : String) : List TypeName → Prop where
  | one (c : Candidate) : CallNames callee [.resolved c.signature]
  | two (c i : Candidate) : CallNames callee [.resolved c.signature, .resolved i.signature]
  | literal {n : TypeName} (receiver : Option String) (types : List (Option String))
      (h : n.name = literalCall receiver callee types) : CallNames callee [n]

open Walk in
lemma callNames_bindCall (owner callee : String) (candidates : List Candidate)
    (args : List (Option TypeName)) :
    Yields (fun o => CallNames callee o.calls) (bindCall owner callee candidates args) := by
  refine .last fun selected => ?_
  cases selected with
  | none => exact .pure (.literal (some owner) _ rfl)
  | some c =>
    refine .last fun implemented => .pure ?_
    cases hmore : (implemented.map Candidate.signature).filter (· != c.signature) with
    | none => simpa [hmore] using CallNames.one c
    | some s =>
      obtain ⟨i, _, rfl⟩ := Option.map_eq_some_iff.mp (Option.filter_eq_some_iff.mp hmore).1
      exact .two c i

open Walk in
lemma callNames_bindInvocation {t name : Tree} (hname : t.child? .name = some name) (cs : Sense)
    (place : Place) (s : WalkState) :
    CallNames (name.text place.source) (bindInvocation t cs place s).1.calls := by
  have htext (f : String → Walk CallOutcome) :
      (text name >>= f) place s = f (name.text place.source) place s := rfl
  rw [bindInvocation, hname]
  dsimp only
  rw [htext]
  generalize name.text place.source = callee
  refine Yields.last (Q := fun o : CallOutcome => CallNames callee o.calls) (fun args => ?_) place s
  refine .last fun target => ?_
  cases target with
  | owner owner => exact .last fun candidates => callNames_bindCall owner callee candidates args
  | found owner candidates => exact callNames_bindCall owner callee candidates args
  | unbound receiver => exact .pure (.literal receiver _ rfl)

lemma CallNames.signatures {callee : String} {names : List TypeName} (h : CallNames callee names) :
    Signatures 1 2 names := by
  cases h with
  | one c => exact .one (isSignature_candidate c) (by omega)
  | two c i =>
    exact ⟨by simp, Nat.le_refl 2, List.forall_mem_cons.mpr
      ⟨isSignature_candidate c, List.forall_mem_singleton.mpr (isSignature_candidate i)⟩⟩
  | literal receiver types h =>
    exact .one (h ▸ isSignature_literalCall receiver callee types) (by omega)

open Walk in
lemma signatures_bindConstructor (owner : String) (args : List (Option TypeName)) :
    Yields (Signatures 1 1) (bindConstructor owner args) := by
  refine .last fun candidates => .last fun selected => ?_
  cases selected with
  | none => exact .pure (.one (isSignature_literalCall none owner _) (Nat.le_refl 1))
  | some c => exact .pure (.one (isSignature_candidate c) (Nat.le_refl 1))

open Walk in
lemma signatures_creationCalls {t written : Tree} (hwritten : t.child? .type = some written)
    (cs : Sense) : Yields (Signatures 1 1) (creationCalls t cs) := by
  have hsome : Yields (fun owner => owner.isSome) (creationOwner t cs) :=
    isSome_creationOwner hwritten
  refine .last fun args => .bind hsome fun owner howner => ?_
  cases owner with
  | none => cases howner
  | some owner =>
    refine .ite _ (.pure (.one (isSignature_literalCall none _ _) (Nat.le_refl 1)))
      (.last fun info => .ite _ (.pure (.one ?_ (Nat.le_refl 1))) (signatures_bindConstructor _ _))
    exact ⟨owner.name, "", by simp [TypeName.resolved, String.append_assoc]⟩

open Walk in
/-- There is no constructor to call outside of all types. -/
lemma signatures_explicitConstructorCalls (t : Tree) (cs : Sense) (place : Place)
    (s : WalkState) : Signatures (if place.frames = [] then 0 else 1) 1
      (explicitConstructorCalls t cs place s).1 := by
  have hargs (f : List (Option TypeName) → Walk (List TypeName)) :
    (argumentTypes cs >>= f) place s =
      f (argumentTypes cs place s).1 place (argumentTypes cs place s).2 := rfl
  have hcurrent (f : Option String → Walk (List TypeName)) (s : WalkState) :
      (currentType >>= f) place s = f place.frames.head? place s := rfl
  rw [explicitConstructorCalls, hargs, hcurrent]
  cases place.frames with
  | nil => exact ⟨Nat.le_refl 0, Nat.zero_le 1, fun n hn => by cases hn⟩
  | cons current outer =>
    refine Yields.last (Q := Signatures 1 1) (fun owner => ?_) place _
    cases owner with
    | some owner => exact signatures_bindConstructor owner _
    | none => exact .last fun _ => .pure (.one (isSignature_literalCall none _ _) (Nat.le_refl 1))

def Report.isSignature : Report → Bool
  | type _ | supertype _ _ _ => false
  | _ => true

def Report.most : Report → Nat
  | call _ _ => 2
  | _ => 1

lemma Event.Holds.signatures (h : e.Holds st m)
    (hm : m.active = []) (hreport : e.report.isSignature) :
    Signatures (if e.report.construct = .explicitConstructorCall ∧ e.spot.view.frames = [] then 0
      else 1) e.report.most e.names := by
  obtain ⟨report, spot, scopes, names⟩ := e
  have hnames : (report.names spot.tree
      { Event.setting st ⟨report, spot, scopes, names⟩ with remembering := .never, path := [] }
      { memory := m, scopes := scopes }).1 = names :=
    congrArg Prod.fst (h.finds hm)
  rw [← hnames]
  have hdescribes := h.describes
  cases report with
  | type name => cases hreport
  | supertype kind isExtends written => cases hreport
  | method name => exact .one (isSignature_declared _ _ _) (Nat.le_refl 1)
  | constructor holder name => exact .one (isSignature_declared _ _ _) (Nat.le_refl 1)
  | call cs name => exact (callNames_bindInvocation hdescribes.2.1 cs _ _).signatures
  | creation cs written => exact signatures_creationCalls hdescribes.2.1 cs _ _
  | explicitCall cs keyword =>
    have hframes : (Event.setting st ⟨.explicitCall cs keyword, spot, scopes, names⟩).frames =
        spot.view.frames := rfl
    have hcalls := signatures_explicitConstructorCalls spot.tree cs
      { Event.setting st ⟨.explicitCall cs keyword, spot, scopes, names⟩ with
        remembering := .never, path := [] } { memory := m, scopes := scopes }
    simp only [hframes] at hcalls
    simp only [Report.construct, true_and]
    exact hcalls

def declaredName? (source : List Char) (t : Tree) : Option String :=
  if List.contains [.methodDeclaration, .annotationTypeElementDeclaration] t.kind then
    t.nameText? source
  else none

/-- The tree that the parameters of a method stand in. Those of a compact constructor are the
components of its record. -/
def Spot.parameterHolder? (s : Spot) : Option Tree :=
  if s.tree.kind == .compactConstructorDeclaration then s.view.path[1]? else some s.tree

def Spot.typedParameters (s : Spot) : Walk (List (Parameter × TypeName)) :=
  s.parameterHolder?.elim (pure []) Walk.typedParameters

/-- The setting in which the parameters of the method at a spot are read. -/
def Spot.signatureSetting (st : Setting) (s : Spot) : Setting :=
  (s.view.declaring (s.tree.typeParameters st.source)).setting st

lemma Event.Holds.declaredNames (h : e.Holds st m)
    (hm : m.active = []) (hmain : e.report.isMain) (hkind : e.spot.tree.kind.isCallable) :
    ∃ name params, e.spot.tree.child? .name = some name ∧
      e.report.key e.spot.tree = name ∧ e.report.construct.location = .method ∧
      Walk.Finds (e.spot.signatureSetting st) e.scopes m e.spot.typedParameters params ∧
      e.names = [Walk.declaredSignature (e.spot.view.frames.head?.getD "")
        (declaredName? st.source e.spot.tree) (params.map Prod.snd)] := by
  obtain ⟨report, spot, scopes, names⟩ := e
  have hfinds := h.finds hm
  have hdescribes := h.describes
  cases report with
  | method name =>
    have hname : spot.tree.child? .name = some name := hdescribes.2
    have hcompact : spot.tree.kind ≠ .compactConstructorDeclaration := by
      rcases hdescribes.1 with hkind | hkind <;> simp [hkind]
    have hdeclared : declaredName? st.source spot.tree = some (name.text st.source) := by
      rcases hdescribes.1 with hkind | hkind <;>
        simp [declaredName?, hkind, Tree.nameText?, hname]
    have hparams : spot.typedParameters = Walk.typedParameters spot.tree := by
      simp [Spot.typedParameters, Spot.parameterHolder?, hcompact]
    obtain ⟨owner, howner, hfinds⟩ := Walk.Finds.of_bind hm
      (show Evaluation.Plain _ from .currentType)
      (fun _ => .bind (.typedParameters spot.tree) fun _ => .bind (.text name) fun _ => .pure _)
      hfinds
    obtain ⟨params, hparameters, hfinds⟩ := Walk.Finds.of_bind hm
      (show Evaluation.Plain _ from .typedParameters spot.tree)
      (fun _ => .bind (.text name) fun _ => .pure _) hfinds
    refine ⟨name, params, hname, rfl, rfl, hparams ▸ hparameters, ?_⟩
    rw [hdeclared, ← show owner = spot.view.frames.head? from howner.currentType]
    exact (congrArg Prod.fst hfinds).symm
  | constructor holder name =>
    have hname : spot.tree.child? .name = some name := hdescribes.2
    have hforms : spot.tree.kind = .constructorDeclaration ∧ holder = some spot.tree ∨
        spot.tree.kind = .compactConstructorDeclaration ∧ holder = spot.view.path[1]? :=
      hdescribes.1
    have hdeclared : declaredName? st.source spot.tree = none := by
      rcases hforms with ⟨hkind, _⟩ | ⟨hkind, _⟩ <;> simp [declaredName?, hkind]
    have hholder : spot.parameterHolder? = holder := by
      rcases hforms with ⟨hkind, hholder⟩ | ⟨hkind, hholder⟩ <;>
        simp [Spot.parameterHolder?, hkind, hholder]
    have hplain : Evaluation.Plain (holder.elim (pure []) Walk.typedParameters) := by
      cases holder with
      | none => exact .pure []
      | some record => exact .typedParameters record
    obtain ⟨owner, howner, hfinds⟩ := Walk.Finds.of_bind hm
      (show Evaluation.Plain _ from .currentType) (fun _ => .bind hplain fun _ => .pure _) hfinds
    obtain ⟨params, hparameters, hfinds⟩ := Walk.Finds.of_bind hm hplain (fun _ => .pure _) hfinds
    refine ⟨name, params, hname, rfl, rfl, ?_, ?_⟩
    · rw [Spot.typedParameters, hholder]
      exact hparameters
    · rw [hdeclared, ← show owner = spot.view.frames.head? from howner.currentType]
      exact (congrArg Prod.fst hfinds).symm
  | type name =>
    have htype := hdescribes.1
    revert htype hkind
    cases spot.tree.kind <;> simp [Kind.isCallable, Kind.isTypeDeclaration]
  | supertype kind isExtends written => cases hmain
  | call cs name | creation cs written | explicitCall cs keyword =>
    simp only [hdescribes.1] at hkind
    cases hkind

lemma Event.Holds.declared (h : e.Holds st m)
    (hm : m.active = []) (hmain : e.report.isMain) (hkind : e.spot.tree.kind.isCallable) :
    ∃ name params, e.spot.tree.child? .name = some name ∧
      Walk.Finds (e.spot.signatureSetting st) e.scopes m e.spot.typedParameters params ∧
      let signature := Walk.declaredSignature (e.spot.view.frames.head?.getD "")
        (declaredName? st.source e.spot.tree) (params.map Prod.snd)
      e.names = [signature] ∧ e.records st = [recordAt st .methodDeclaration name signature] := by
  obtain ⟨name, params, hname, hkey, hlocation, hparams, hnames⟩ := h.declaredNames hm hmain hkind
  refine ⟨name, params, hname, hparams, hnames, ?_⟩
  have hrecord (n : TypeName) : recordAt st e.report.construct name n =
      recordAt st .methodDeclaration name n := by
    rw [recordAt, hlocation]
    rfl
  rw [Event.records, recordsAt, hnames, hkey]
  simp [(isSignature_declared _ _ _).ne_empty, hrecord]

end Xref.Reference
