import Xref.Proofs.Resolve.Memory

/-!
# Runs of questions

One resolver answers many questions, and all of them share its memory. Between questions nothing is
active, what is remembered stays as it is, and a question that comes again is answered as before.
-/
namespace Xref.Resolve

open Java

inductive Question where
  | resolve (name : String) (ctx : Context)
  | resolveFull (name : String)
  | typeName (text : String) (ctx : Context)
  | refName (ref : TypeRef)
  | memberType (owner simple : String)
  | supertypes (q : String)
  | superclass (q : String)
  | lineage (q : String)
  | isAssignable (source target : String)
  | findField (owner name : String)
  | findMethods (owner name : String)
  | constructors (owner : String)
  | implementedMethod (implementation : Candidate)
  | description (q : String)

namespace Question

abbrev Answer : Question → Type
  | resolve .. | resolveFull .. | memberType .. | superclass .. => Option String
  | typeName .. | refName .. => TypeName
  | supertypes .. => Supertypes
  | lineage .. => List String
  | isAssignable .. => Bool
  | findField .. => Option (String × TypeName)
  | findMethods .. | constructors .. => List Candidate
  | implementedMethod .. => Option Candidate
  | description .. => Option TypeInfo

/-- The question, where direct supertypes are asked for by `ask` and lists of them by `lineage`. -/
def putTo (index : TypeIndex) (ask : Ask) (lineage : Lineage) : (q : Question) → Query q.Answer
  | .resolve name ctx => resolveType index lineage name ctx
  | .resolveFull name => resolveQualified index lineage name
  | .typeName text ctx => resolveOrRecover index lineage text ctx
  | .refName ref => typeNameOf index lineage ref
  | .memberType owner simple => findMemberType index lineage owner simple
  | .supertypes q => ask q
  | .superclass q => do return (← ask q).superclass
  | .lineage q => lineage q
  | .isAssignable source target => Resolve.isAssignable lineage source target
  | .findField owner name => Resolve.findField index lineage owner name
  | .findMethods owner name => Resolve.findMethods index lineage owner name
  | .constructors owner => Resolve.constructors index lineage owner
  | .implementedMethod c => Resolve.implementedMethod index lineage c
  | .description q => Query.info index q

def pose (index : TypeIndex) (q : Question) : Query q.Answer :=
  q.putTo index (Resolve.supertypes index) index.lineage

lemma program_or_description (q : Question) :
    Program (fun index ask lineage => q.putTo index ask lineage) ∨ ∃ name,
      q = .description name := by
  cases q with
  | description q => exact .inr ⟨q, rfl⟩
  | resolve name ctx => exact .inl (.resolveType name ctx)
  | resolveFull name => exact .inl (.resolveQualified name)
  | typeName text ctx => exact .inl (.resolveOrRecover text ctx)
  | refName ref => exact .inl (.typeNameOf ref)
  | memberType owner simple => exact .inl (.findMemberType owner simple)
  | supertypes q => exact .inl (.ask q)
  | superclass q => exact .inl (.bind (.ask q) fun s => .pure s.superclass)
  | lineage q => exact .inl (.lineage q)
  | isAssignable source target => exact .inl (.isAssignable source target)
  | findField owner name => exact .inl (.findField owner name)
  | findMethods owner name => exact .inl (.findMethods owner name)
  | constructors owner => exact .inl (.constructors owner)
  | implementedMethod c => exact .inl (.implementedMethod c)

lemma routine (index : TypeIndex) (q : Question) : Routine index (q.putTo index) := by
  rcases q.program_or_description with h | ⟨name, rfl⟩
  · exact h.routine index
  · exact .look name

lemma stable (index : TypeIndex) (q : Question) : Stable (q.pose index) :=
  (q.routine index).posed.stable

end Question

/-- What `m` becomes by some questions to the resolver, one after the other. -/
def Memory.Reaches (index : TypeIndex) (m m' : Memory) : Prop :=
  ∃ questions : List Question, m' = questions.foldl (fun m q => (q.pose index m).2) m

namespace Memory.Reaches

variable {index : TypeIndex} {m m' m'' : Memory}

lemma refl (m : Memory) : m.Reaches index m := ⟨[], rfl⟩

lemma trans (h : m.Reaches index m') (h' : m'.Reaches index m'') : m.Reaches index m'' := by
  obtain ⟨questions, rfl⟩ := h
  obtain ⟨more, rfl⟩ := h'
  exact ⟨questions ++ more, List.foldl_append.symm⟩

lemma of_posed {α : Type} {x : Query α} (h : Posed index x) (m : Memory) :
    m.Reaches index (x m).2 := by
  induction h generalizing m with
  | pure a => exact .refl m
  | look q => exact ⟨[.description q], rfl⟩
  | supertypes q => exact ⟨[.supertypes q], rfl⟩
  | bind _ _ ihx ihf => exact (ihx m).trans (ihf _ _)

end Memory.Reaches

/-- The memory of a resolver after the questions of `history`. -/
def after (index : TypeIndex) (history : List Question) : Memory :=
  history.foldl (fun m q => (q.pose index m).2) {}

/-- What a resolver answers to `q` after the questions of `history`. -/
def answer (index : TypeIndex) (history : List Question) (q : Question) : q.Answer :=
  (q.pose index (after index history)).1

variable (index : TypeIndex)

lemma after_append (history more : List Question) : after index (history ++ more) =
    more.foldl (fun m q => (q.pose index m).2) (after index history) :=
  List.foldl_append

/-- What holds of the empty memory and is kept by every question holds in every run. -/
lemma after_invariant {P : Memory → Prop} (hempty : P {})
    (hstep : ∀ (q : Question) (m : Memory), P m → P (q.pose index m).2)
    (history : List Question) : P (after index history) := by
  suffices h : ∀ m, P m → P (history.foldl (fun m q => (q.pose index m).2) m) from h {} hempty
  induction history with
  | nil => exact fun m hm => hm
  | cons q history ih => exact fun m hm => ih _ (hstep q m hm)

lemma grows_foldl (questions : List Question) {m : Memory} (hm : m.active = []) :
    m.Grows (questions.foldl (fun m q => (q.pose index m).2) m) := by
  induction questions generalizing m with
  | nil => exact .refl m
  | cons q questions ih =>
    have hgrow := (q.stable index m hm).1
    exact hgrow.trans (ih (hgrow.active.trans hm))

@[simp] lemma after_active (history : List Question) : (after index history).active = [] :=
  (grows_foldl index history rfl).active

lemma grows_after (history more : List Question) :
    (after index history).Grows (after index (history ++ more)) := by
  rw [after_append]
  exact grows_foldl index more (after_active index history)

lemma pose_again (history more : List Question) (q : Question) :
    q.pose index (after index (history ++ q :: more)) =
      (answer index history q, after index (history ++ q :: more)) := by
  obtain ⟨hgrow, hagain⟩ := q.stable index (after index history) (after_active index history)
  refine hagain _ (after_active index _) ?_
  rw [after_append]
  exact (grows_foldl index more (hgrow.active.trans (after_active index history))).toWithin

/-- Over any run of questions, nothing is active in between, no entry of the memory is changed or
lost, and a question that comes again has the answer that it had before. -/
theorem answer_again (history more : List Question) (q : Question) :
    (after index history).active = [] ∧
      (∀ name s, (after index history).known.lookup name = some s →
        (after index (history ++ more)).known.lookup name = some s) ∧
      answer index (history ++ q :: more) q = answer index history q := by
  refine ⟨after_active index history, (grows_after index history more).known, ?_⟩
  rw [answer, pose_again]

end Xref.Resolve
