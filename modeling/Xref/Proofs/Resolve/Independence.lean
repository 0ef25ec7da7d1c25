import Xref.Proofs.Resolve.Termination

/-!
# Answers that depend on earlier questions

A type reports no supertypes while they are being worked out, and what other types make of that
report is remembered for good. An answer does not depend on earlier questions exactly where every
entry of the memory is what a new resolver would find. That is so if types can be ranked so that the
work on one of them leads to types of lower rank only.
-/
open List

namespace Xref.Resolve

open Java

variable {index : TypeIndex}
variable {α : Type} {active : List String} {m : Memory} {q : String} {rank : String → Nat}
  {x : Query α} {n : Nat}

def freshSupertypes (index : TypeIndex) (q : String) : Supertypes := (supertypes index q {}).1

/-- Every entry is what a new resolver would find. -/
def Memory.Fresh (index : TypeIndex) (m : Memory) : Prop :=
  ∀ q s, m.known.lookup q = some s → s = freshSupertypes index q

lemma after_concat (index : TypeIndex) (history : List Question) (q : Question) :
    after index (history ++ [q]) = (q.pose index (after index history)).2 :=
  after_append index history [q]

lemma Posed.exists_after (h : Posed index x) (history : List Question) :
    ∃ more, (x (after index history)).2 = after index (history ++ more) := by
  obtain ⟨more, hmore⟩ := Memory.Reaches.of_posed h (after index history)
  exact ⟨more, hmore.trans (after_append index history more).symm⟩

lemma supertypes_after (h : ∀ history, (after index history).Fresh index)
    (history : List Question) (q : String) :
    (supertypes index q (after index history)).1 = freshSupertypes index q := by
  have ha : q ∉ (after index history).active := by simp
  refine h (history ++ [.supertypes q]) q _ ?_
  rw [after_concat index history (.supertypes q)]
  exact lookup_supertypesBy ha

lemma Posed.answer_eq (hfresh : ∀ history, (after index history).Fresh index) (h : Posed index x)
    (history history' : List Question) :
    (x (after index history)).1 = (x (after index history')).1 := by
  induction h generalizing history history' with
  | pure a => rfl
  | look q => rfl
  | supertypes q => rw [supertypes_after hfresh, supertypes_after hfresh]
  | bind hx _ ihx ihf =>
    obtain ⟨more, hmore⟩ := hx.exists_after history
    obtain ⟨more', hmore'⟩ := hx.exists_after history'
    simp only [bind_apply, ihx history history', hmore, hmore']
    exact ihf _ _ _

lemma answers_fresh_iff (index : TypeIndex) :
    (∀ history q, answer index history q = answer index [] q) ↔
      ∀ history, (after index history).Fresh index := by
  constructor
  · intro h history q s hs
    have hanswer : answer index history (.supertypes q) = s :=
      congrArg Prod.fst (supertypesBy_of_known hs)
    exact hanswer.symm.trans (h history (.supertypes q))
  · intro h history q
    exact (q.routine index).posed.answer_eq h history []

/-- A new resolver that works on a type is led to types of lower rank only. -/
def Ranked (index : TypeIndex) (rank : String → Nat) : Prop :=
  ∀ q ∈ index.names, ∀ entry ∈ (supertypes index q {}).2.known,
    entry.1 ≠ q → rank entry.1 < rank q

instance (index : TypeIndex) (rank : String → Nat) : Decidable (Ranked index rank) :=
  inferInstanceAs (Decidable (∀ q ∈ index.names, _))

/-- A fresh memory while the types of `active` are worked on. -/
structure Memory.Clear (index : TypeIndex) (active : List String) (m : Memory) : Prop where
  during : m.During index active
  fresh : m.Fresh index
  pending : ∀ q ∈ active, m.known.lookup q = none

lemma Memory.Clear.consult (hm : m.Clear index active)
    (q : String) : (m.consult index q).Clear index active where
  during := hm.during.consult q
  fresh p s hp := hm.fresh p s (m.consult_known q ▸ hp)
  pending p hp := (m.consult_known q).symm ▸ hm.pending p hp

lemma Memory.Clear.enter (hm : m.Clear index active)
    (hq : m.known.lookup q = none) : (m.enter q).Clear index (q :: active) where
  during := ⟨hm.during.1, congrArg (q :: ·) hm.during.2⟩
  fresh := hm.fresh
  pending := forall_mem_cons.2 ⟨hq, hm.pending⟩

lemma Memory.Clear.ask (hm : m.Clear index active) (n : Nat)
    (q : String) (hfresh : (supertypesWithin index n q m).2.Fresh index) :
    (supertypesWithin index n q m).2.Clear index active where
  during := supertypesWithin_during n q hm.during
  fresh := hfresh
  pending p hp := by
    rw [(supertypesWithin_grows n q m).pending p (hm.during.2.symm ▸ hp)]
    exact hm.pending p hp

lemma supertypesWithin_of_active (n : Nat) (hm : m.Clear index active) (hq : q ∈ active) :
    supertypesWithin index n q m = ({}, m) := by
  cases n with
  | zero => rfl
  | succ n => exact supertypesBy_of_active (hm.pending q hq) (hm.during.2.symm ▸ hq)

/-- Asking for types of a rank below that of `q` brings what a new resolver would find. -/
def FreshBelow (index : TypeIndex) (rank : String → Nat) (q : String) : Prop :=
  ∀ p, rank p < rank q → ∀ {active : List String} {n : Nat} {m : Memory}, Room index active n →
    m.Clear index active → (∀ r ∈ active, rank p < rank r) →
    (supertypesWithin index n p m).1 = freshSupertypes index p ∧
      (supertypesWithin index n p m).2.Fresh index

/-- Two runs of one dialogue during the work on `q`, the first by a new resolver. As long as the
first remembers types of lower rank only, both get the same answers. -/
lemma Dialogue.lockstep {f : Ask → Query α} (h : Dialogue index f)
    (hbelow : FreshBelow index rank q) (hactive : ∀ r ∈ active, rank q < rank r) {n' : Nat}
    (hn : Room index [q] n) (hn' : Room index (q :: active) n') {m' : Memory}
    (hm : m.Clear index [q]) (hm' : m'.Clear index (q :: active))
    (hlow : ∀ p s, (f (supertypesWithin index n) m).2.known.lookup p = some s → rank p < rank q) :
    (f (supertypesWithin index n) m).1 = (f (supertypesWithin index n') m').1 ∧
      (f (supertypesWithin index n) m).2.Clear index [q] ∧
      (f (supertypesWithin index n') m').2.Clear index (q :: active) := by
  induction h generalizing m m' with
  | pure a => exact ⟨rfl, hm, hm'⟩
  | look p => exact ⟨rfl, hm.consult p, hm'.consult p⟩
  | ask p =>
    by_cases hp : p = q
    · subst hp
      simp only [supertypesWithin_of_active n hm mem_cons_self,
        supertypesWithin_of_active n' hm' mem_cons_self]
      exact ⟨trivial, hm, hm'⟩
    · obtain ⟨n, rfl⟩ := hn.exists_succ
      have ha : p ∉ m.active := by simpa [hm.during.2] using hp
      have hrank : rank p < rank q := hlow p _ (lookup_supertypesBy ha)
      obtain ⟨hanswer, hfresh⟩ := hbelow p hrank hn hm (by simpa using hrank)
      obtain ⟨hanswer', hfresh'⟩ := hbelow p hrank hn' hm'
        (forall_mem_cons.2 ⟨hrank, fun r hr => hrank.trans (hactive r hr)⟩)
      exact ⟨hanswer.trans hanswer'.symm, hm.ask _ p hfresh, hm'.ask _ p hfresh'⟩
  | bind hx hf ihx ihf =>
    obtain ⟨hsame, hclear, hclear'⟩ := ihx hm hm'
      fun p s hp => hlow p s (((hf _).grows (supertypesWithin_grows n) _).known p s hp)
    simp only [bind_apply, ← hsame]
    exact ihf _ hclear hclear' hlow

def freshWork (index : TypeIndex) (q : String) : Supertypes × Memory :=
  findSupertypes index (linearization index (supertypesWithin index index.names.length)) q
    (Memory.enter {} q)

lemma supertypes_empty (q : String) :
    supertypes index q {} = ((freshWork index q).1, (freshWork index q).2.leave q
      (freshWork index q).1) :=
  supertypesBy_of_new rfl not_mem_nil

lemma clear_empty (index : TypeIndex) : Memory.Clear index [] {} where
  during := during_after index []
  fresh q s h := by simp at h
  pending := forall_mem_nil _

lemma Ranked.lt_of_freshWork (h : Ranked index rank)
    (hq : q ∈ index.names) {p : String} {s : Supertypes}
    (hp : (freshWork index q).2.known.lookup p = some s) : rank p < rank q := by
  have hgrow : (Memory.enter {} q).Grows (freshWork index q).2 :=
    (Program.findSupertypes q).dialogue.grows (supertypesWithin_grows _) _
  have hne : p ≠ q := by
    rintro rfl
    rw [hgrow.pending p mem_cons_self] at hp
    simp [Memory.enter] at hp
  have hlookup : (supertypes index q {}).2.known.lookup p = some s := by
    rw [supertypes_empty, Memory.lookup_leave, if_neg hne, hp]
  obtain ⟨before, later, hknown, _⟩ := lookup_eq_some_iff.1 hlookup
  exact h q hq (p, s) (by simp [hknown]) hne

lemma findSupertypes_fresh (hrank : Ranked index rank) (hbelow : FreshBelow index rank q)
    (hroom : Room index active (n + 1)) (hm : m.Clear index active) (hq : q ∉ active)
    (hknown : m.known.lookup q = none) (hactive : ∀ r ∈ active, rank q < rank r) :
    (findSupertypes index (linearization index (supertypesWithin index n)) q (m.enter q)).1 =
        freshSupertypes index q ∧
      (findSupertypes index (linearization index (supertypesWithin index n)) q
        (m.enter q)).2.Fresh index := by
  rw [freshSupertypes, supertypes_empty]
  by_cases hread : q ∈ index.readable
  · have hcard := index.card_readable_le
    have hroom₀ : Room index [] (index.names.length + 1) := .idle (by omega)
    obtain ⟨hsame, _, hclear⟩ := (Program.findSupertypes q).dialogue.lockstep hbelow hactive
      (hroom₀.enter hread not_mem_nil) (hroom.enter hread hq)
      ((clear_empty index).enter rfl) (hm.enter hknown)
      (fun p s hp => hrank.lt_of_freshWork (index.mem_names q (TypeIndex.mem_readable.1 hread)) hp)
    exact ⟨hsame.symm, hclear.fresh⟩
  · have hinfo : index.info q = none := by simpa using hread
    rw [freshWork, findSupertypes_of_unreadable _ hinfo, findSupertypes_of_unreadable _ hinfo]
    exact ⟨rfl, ((hm.enter hknown).consult q).fresh⟩

lemma supertypesWithin_fresh (hrank : Ranked index rank) (q : String) (hroom : Room index active n)
    (hm : m.Clear index active) (hactive : ∀ r ∈ active, rank q < rank r) :
    (supertypesWithin index n q m).1 = freshSupertypes index q ∧
      (supertypesWithin index n q m).2.Fresh index := by
  induction hk : rank q using Nat.strongRecOn generalizing q active n m with
  | ind k ih =>
    subst hk
    have hbelow : FreshBelow index rank q :=
      fun p hp _ _ _ hroom hm hactive => ih (rank p) hp p hroom hm hactive rfl
    obtain ⟨n, rfl⟩ := hroom.exists_succ
    have hq : q ∉ active := fun h => Nat.lt_irrefl _ (hactive q h)
    rw [supertypesWithin]
    cases hknown : m.known.lookup q with
    | some s =>
      rw [supertypesBy_of_known hknown]
      exact ⟨hm.fresh q s hknown, hm.fresh⟩
    | none =>
      rw [supertypesBy_of_new hknown (hm.during.2.symm ▸ hq)]
      obtain ⟨hanswer, hfresh⟩ := findSupertypes_fresh hrank hbelow hroom hm hq hknown hactive
      refine ⟨hanswer, fun p s hp => ?_⟩
      rw [Memory.lookup_leave] at hp
      split at hp
      · next hpq => rw [hpq, ← hanswer, Option.some.inj hp]
      · exact hfresh p s hp

lemma Ranked.fresh_after (h : Ranked index rank)
    (history : List Question) : (after index history).Fresh index := by
  have hask : ∀ q m, Memory.Clear index [] m → (supertypes index q m).2.Clear index [] :=
    fun q m hm => hm.ask _ q (supertypesWithin_fresh h q (.ofNames index) hm (forall_mem_nil _)).2
  have hclear := after_invariant index (clear_empty index)
    (fun q m hm => (q.routine index).dialogue.keeps hask (fun q m hm => hm.consult q) hm) history
  exact hclear.fresh

/-- Answers do not depend on earlier questions exactly if all that is ever remembered is what a new
resolver would find. A ranking of the types is enough for that. -/
theorem answer_eq_fresh (index : TypeIndex) :
    ((∀ history q, answer index history q = answer index [] q) ↔
        ∀ history name s, (after index history).known.lookup name = some s →
          s = (supertypes index name {}).1) ∧
      ((∃ rank, Ranked index rank) →
        ∀ history q, answer index history q = answer index [] q) := by
  refine ⟨answers_fresh_iff index, ?_⟩
  rintro ⟨rank, hrank⟩
  exact (answers_fresh_iff index).2 hrank.fresh_after

/-- A type without members in the default package, by the texts of its supertypes. -/
def plainType (name : String) (kind : TypeKind) (superclass : Option String)
    (interfaces : List String) : TypeInfo where
  name := name
  package := ""
  kind := kind
  superclass := superclass.map (.written · {})
  interfaces := interfaces.map (.written · {})
  fields := []
  methods := []
  origin := .source ""

/-- Types of which `B` extends the class that is written as `superclass`. The work on `A` asks for
the supertypes of `B`, of which `B.N` may be a member. -/
def twoClasses (superclass : String) : TypeIndex := .ofTypes [
  plainType "Base" .classType none [],
  plainType "Base$M" .classType none [],
  plainType "Base$M$Inner" .classType none [],
  plainType "A" .classType (some "Base") ["B.N"],
  plainType "B" .classType (some superclass) [],
  plainType "B$N" .interfaceType none []]

/-- Where `B` extends the class itself, `B` does not ask for `A`. -/
theorem answer_of_direct_superclass :
    Ranked (twoClasses "Base.M") (fun q => if q = "A" then 2 else if q = "B" then 1 else 0) ∧
      answer (twoClasses "Base.M") [.supertypes "A"] (.supertypes "B") =
        answer (twoClasses "Base.M") [] (.supertypes "B") := by
  have hranked : Ranked (twoClasses "Base.M")
      (fun q => if q = "A" then 2 else if q = "B" then 1 else 0) := by decide +kernel
  exact ⟨hranked, (answer_eq_fresh (twoClasses "Base.M")).2 ⟨_, hranked⟩ _ _⟩

/-- Where `B` extends a class that `A` inherits, nobody finds it once `A` was asked for first. -/
theorem answer_after_inheritor :
    answer (twoClasses "A.M") [.supertypes "A"] (.supertypes "B") = {} ∧
      answer (twoClasses "A.M") [] (.supertypes "B") = { superclass := some "Base$M" } ∧
      answer (twoClasses "A.M") [.supertypes "A"] (.resolve "Inner" { enclosing := ["B"] }) =
        none ∧
      answer (twoClasses "A.M") [] (.resolve "Inner" { enclosing := ["B"] }) =
        some "Base$M$Inner" := by
  decide +kernel

end Xref.Resolve
