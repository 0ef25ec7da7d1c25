import Xref.Proofs.Reference.Evaluation
import Xref.Proofs.Reference.Overload
import Xref.Reference.Visit

/-!
# Walks that only ask

To find out what a name means, no tree is looked at, only the context, the types around the place,
the scopes and what the resolver answers. `Inquires` says this of a walk. Such a walk is an
evaluation, and in two places where all of that corresponds it finds the same.
-/
namespace Xref.Reference

open Declaration Java Resolve Syntax Text Overload Walk

/-- Settings in which names mean the same. -/
structure Setting.Alike (st st' : Setting) : Prop where
  context : st'.context = st.context
  frames : st'.frames = st.frames
  contains : st'.index.contains = st.index.contains
  packageExists : st'.index.packageExists = st.index.packageExists

/-- A walk that looks at no tree. Where a type was found does not matter to it. -/
inductive Inquires : {α : Type} → Walk α → Prop where
  | pure {α : Type} (a : α) : Inquires (pure a)
  | setting {α : Type} {f : Setting → Walk α} (hf : ∀ st st', st.Alike st' → f st' = f st)
      (h : ∀ st, Inquires (f st)) : Inquires (Walk.setting >>= f)
  | ask {α : Type} {question : TypeIndex → Query α} (h : Poses question) :
      Inquires (Walk.ask question)
  | describe {α : Type} (q : String) {f : Option TypeInfo → Walk α} (h : ∀ info, Inquires (f info))
      (horigin : ∀ t origin, f (some { t with origin := origin }) = f (some t)) :
      Inquires ((Walk.ask fun index => Query.info index q) >>= f)
  | localType (simple : String) : Inquires (Walk.localType? simple)
  | localVariable (name : String) : Inquires (Walk.localVariable? name)
  | bind {α β : Type} {x : Walk α} {f : α → Walk β} (hx : Inquires x) (hf : ∀ a, Inquires (f a)) :
      Inquires (x >>= f)

variable {α β : Type}

lemma Evaluation.of {binding : Bindings} {κ : Contexts}
    {ctx : Context} {x : Walk α} (h : Inquires x) : Evaluation binding κ ctx x := by
  induction h with
  | pure a => exact .pure a
  | setting _ _ ih => exact .bind .setting ih
  | ask h => exact .ask h.posed
  | describe q _ _ ih => exact .bind (.ask fun _ => .look q) ih
  | localType simple => exact .localType simple
  | localVariable name => exact .localVariable name
  | bind _ _ ihx ihf => exact .bind ihx ihf

namespace Inquires

lemma pose (q : Question) (h : q.Agrees = Eq) : Inquires (Walk.ask q.pose) := .ask (.pose q h)

lemma select (candidates : List Candidate) (args : List (Option TypeName)) :
    Inquires (Walk.ask fun index => Overload.select index candidates args) :=
  .ask (Overload.poses_select candidates args)

lemma ite (c : Prop) [Decidable c] {x y : Walk α} (hx : Inquires x) (hy : Inquires y) :
    Inquires (if c then x else y) := by
  by_cases h : c
  · rwa [if_pos h]
  · rwa [if_neg h]

variable {f : α → Walk (Option β)}

lemma filterMapM (hf : ∀ a, Inquires (f a)) (l : List α) : Inquires (l.filterMapM f) := by
  induction l with
  | nil => exact .pure []
  | cons a l ih =>
    rw [List.filterMapM_cons]
    refine .bind (hf a) fun found => ?_
    cases found with
    | none => exact ih
    | some b => exact .bind ih fun bs => .pure (b :: bs)

lemma firstSome (hf : ∀ a, Inquires (f a)) (l : List α) : Inquires (firstSome f l) := by
  induction l with
  | nil => exact .pure none
  | cons a l ih =>
    refine .bind (hf a) fun found => ?_
    cases found with
    | none => exact ih
    | some b => exact .pure (some b)

lemma currentType : Inquires currentType :=
  .setting (fun _ _ h => by simp only [h.frames]) fun _ => .pure _

lemma resolveType? (text : String) : Inquires (Walk.resolveType? text) := by
  unfold Walk.resolveType?
  rcases splitArray text with ⟨base, dims⟩
  refine .bind (.localType _) fun found => ?_
  cases found with
  | none =>
    exact .setting (fun _ _ h => by simp only [h.context]) fun st =>
      .pose (.resolve text st.context) rfl
  | some binary =>
    dsimp only
    cases cutFirst '.' base with
    | none => exact .pure _
    | some cut => exact .bind (.pose (.resolveFull _) rfl) fun _ => .pure _

lemma recover (text : String) : Inquires (recover text) := by
  refine .setting (fun _ _ h => by simp only [h.context]) fun st => ?_
  unfold recoverName
  dsimp only
  cases cutFirst '.' (trim text) with
  | none => cases st.context.imports.find? _ <;> exact .pure _
  | some cut =>
    refine .bind (.resolveType? cut.1) fun found => ?_
    cases found with
    | some known => exact .pure _
    | none =>
      dsimp only
      cases st.context.imports.find? _ <;> exact .pure _

lemma typeName (text : String) : Inquires (typeName text) := by
  refine .bind (.resolveType? text) fun found => ?_
  cases found with
  | some name => exact .pure _
  | none => exact .bind (.recover _) fun _ => .pure _

lemma findField (owner name : String) : Inquires (Walk.findField owner name) :=
  .pose (.findField owner name) rfl

lemma staticImports (member : String) : Inquires (Walk.staticImports member) :=
  .setting (fun _ _ h => by simp only [h.context]) fun _ =>
    .filterMapM (fun _ => .pose (.resolveFull _) rfl) _

lemma value? (name : String) : Inquires (Walk.value? name) := by
  have hfield (owner : String) :
      Inquires (do return (← Walk.findField owner name).map fun f => some f.2) :=
    .bind (.findField owner name) fun _ => .pure _
  refine .bind (.localVariable name) fun found => ?_
  cases found with
  | some type => exact .pure _
  | none =>
    refine .setting (fun _ _ h => by simp only [h.frames]) fun st =>
      .bind (.firstSome hfield st.frames) fun found => ?_
    cases found with
    | some type => exact .pure _
    | none => exact .bind (.staticImports name) fun owners => .firstSome hfield owners

lemma thisType : Inquires thisType := .bind .currentType fun _ => .pure _

lemma superType : Inquires Walk.superType := by
  refine .bind .currentType fun current => ?_
  cases current with
  | none => exact .pure none
  | some current => exact .bind (.pose (.superclass current) rfl) fun _ => .pure _

lemma fieldType (owner field : String) : Inquires (fieldType owner field) :=
  .ite _ (.pure _) (.bind (.findField owner field) fun _ => .pure _)

lemma nameOperand (name : String) : Inquires (nameOperand name) := by
  refine .bind (.value? name) fun value => ?_
  cases value with
  | some type => exact .pure _
  | none =>
    refine .bind (.resolveType? name) fun type => ?_
    cases type with
    | some type => exact .pure _
    | none =>
      exact .setting (fun _ _ h => by simp only [h.packageExists]) fun _ =>
        .ite _ (.pure _) (.pure _)

lemma memberOperand (object : Operand) (field : String) :
    Inquires (Walk.memberOperand object field) := by
  cases object with
  | value type =>
    cases type with
    | none => exact .pure _
    | some type => exact .ite _ (.bind (.fieldType type.name field) fun _ => .pure _) (.pure _)
  | type owner =>
    refine .bind (.fieldType owner field) fun type => ?_
    cases type with
    | some type => exact .pure _
    | none =>
      refine .bind (.pose (.memberType owner field) rfl) fun member => ?_
      cases member <;> exact .pure _
  | package package =>
    exact .setting (fun _ _ h => by simp only [h.contains, h.packageExists]) fun _ => .pure _
  | unknown start => exact .pure _

lemma implicitTarget (name : String) : Inquires (Walk.implicitTarget name) := by
  have hmethods (owner : String) {f : List Candidate → Option Target} :
      Inquires (do return f (← Walk.findMethods owner name)) :=
    .bind (.pose (.findMethods owner name) rfl) fun _ => .pure _
  refine .setting (fun _ _ h => by simp only [h.frames]) fun st =>
    .bind (.firstSome (fun owner => hmethods owner) st.frames) fun target => ?_
  cases target with
  | some target => exact .pure target
  | none =>
    exact .bind (.staticImports name) fun owners =>
      .bind (.firstSome (fun owner => hmethods owner) owners) fun _ => .pure _

lemma bindCall (owner name : String) (candidates : List Candidate)
    (args : List (Option TypeName)) : Inquires (Walk.bindCall owner name candidates args) := by
  refine .bind (.select candidates args) fun found => ?_
  cases found with
  | none => exact .pure _
  | some method => exact .bind (.pose (.implementedMethod method) rfl) fun _ => .pure _

lemma bindConstructor (owner : String) (args : List (Option TypeName)) :
    Inquires (Walk.bindConstructor owner args) := by
  refine .bind (.pose (.constructors owner) rfl) fun candidates =>
    .bind (.select candidates args) fun found => ?_
  cases found <;> exact .pure _

lemma writtenSuperclass (current : String) : Inquires (Walk.writtenSuperclass current) := by
  refine .describe current (fun info => ?_) fun _ _ => rfl
  cases info.bind TypeInfo.superclass with
  | none => exact .pure _
  | some ref => exact .bind (.pose (.refName ref) rfl) fun _ => .pure _

lemma importedMembers (i : Import) : Inquires (Walk.importedMembers i) := by
  refine .bind (.pose (.resolveFull i.name) rfl) fun owner => ?_
  cases owner <;> exact .pure _

lemma importedOwner (i : Import) : Inquires (Walk.importedOwner i) := by
  unfold Walk.importedOwner
  cases i.qualifier with
  | none => exact .pure none
  | some qualifier => exact .pose (.resolveFull qualifier) rfl

lemma importName (i : Import) : Inquires (Walk.importName i) := by
  refine .ite _ (.ite _ (.importedMembers i) ?member) (.ite _ ?package ?single)
  case member =>
    refine .bind (.importedOwner i) fun owner => ?_
    cases owner <;> exact .pure _
  case package =>
    exact .setting (fun _ _ h => by simp only [h.packageExists]) fun _ =>
      .ite _ (.pure _) (.importedMembers i)
  case single =>
    refine .bind (.pose (.resolveFull i.name) rfl) fun name => ?_
    cases name <;> exact .pure _

end Inquires

end Xref.Reference
