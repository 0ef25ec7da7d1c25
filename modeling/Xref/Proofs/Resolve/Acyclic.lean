import Xref.Proofs.Resolve.Independence

/-!
# Supertypes as they are written

The work on a type asks what the names in its supertype clauses mean, while the type is active. If
that work never comes back to the type, the supertypes of a type are the ones that its clauses name,
whatever was asked before.
-/
open List Option

namespace Xref.Resolve

open Java

variable {index : TypeIndex}
variable {q : String} {rank : String → Nat}

/-- The work on a type leads to types of lower rank only and not to the type itself, and no type is
one of its own supertypes. -/
structure Acyclic (index : TypeIndex) : Prop where
  ranked : ∃ rank, Ranked index rank
  apart : ∀ q ∈ index.names, (findSupertypes index index.lineage q {}).2.known.lookup q = none
  proper : ∀ q ∈ index.names, ∀ info ∈ index.info q, ∀ ref ∈ info.superclass.toList ++
    info.interfaces, (typeNameOf index index.lineage ref {}).1 ≠ .resolved q

/-- With a ranking at hand, it can be checked. -/
def isAcyclic (index : TypeIndex) (rank : String → Nat) : Bool :=
  decide (Ranked index rank) && index.names.all fun q =>
    ((findSupertypes index index.lineage q {}).2.known.lookup q).isNone &&
      (index.info q).all fun info => (info.superclass.toList ++ info.interfaces).all fun ref =>
        (typeNameOf index index.lineage ref {}).1 != .resolved q

lemma acyclic_of_isAcyclic (h : isAcyclic index rank) : Acyclic index := by
  simp only [isAcyclic, Bool.and_eq_true, decide_eq_true_eq, List.all_eq_true, isNone_iff_eq_none,
    Option.all_eq_true, bne_iff_ne] at h
  exact ⟨⟨rank, h.1⟩, fun q hq => (h.2 q hq).1, fun q hq => (h.2 q hq).2⟩

/-- Two runs of one dialogue, the second while `q` is worked on. As long as the first does not come
to know `q`, and the second remembers types of lower rank only, both get the same answers. -/
lemma Dialogue.outside {α : Type} {f : Ask → Query α} (h : Dialogue index f)
    (hrank : Ranked index rank) {n n' : Nat} (hn : Room index [] n) (hn' : Room index [q] n')
    {m m' : Memory} (hm : m.Clear index []) (hm' : m'.Clear index [q])
    (hapart : (f (supertypesWithin index n) m).2.known.lookup q = none)
    (hlow : ∀ p s, (f (supertypesWithin index n') m').2.known.lookup p = some s → rank p < rank q) :
    (f (supertypesWithin index n) m).1 = (f (supertypesWithin index n') m').1 ∧
      (f (supertypesWithin index n) m).2.Clear index [] ∧
      (f (supertypesWithin index n') m').2.Clear index [q] := by
  induction h generalizing m m' with
  | pure a => exact ⟨rfl, hm, hm'⟩
  | look p => exact ⟨rfl, hm.consult p, hm'.consult p⟩
  | ask p =>
    obtain ⟨n, rfl⟩ := hn.exists_succ
    obtain ⟨n', rfl⟩ := hn'.exists_succ
    have hne : p ≠ q := by
      rintro rfl
      have hknown : (supertypesWithin index (n + 1) p m).2.known.lookup p = some _ :=
        lookup_supertypesBy (by simp [hm.during.2])
      exact some_ne_none _ (hknown.symm.trans hapart)
    have hp : rank p < rank q := hlow p _ (lookup_supertypesBy (by simpa [hm'.during.2] using hne))
    obtain ⟨hanswer, hfresh⟩ := supertypesWithin_fresh hrank p hn hm (forall_mem_nil _)
    obtain ⟨hanswer', hfresh'⟩ := supertypesWithin_fresh hrank p hn' hm' (by simpa using hp)
    exact ⟨hanswer.trans hanswer'.symm, hm.ask _ p hfresh, hm'.ask _ p hfresh'⟩
  | bind hx hf ihx ihf =>
    have hfirst : ∀ s, _ ≠ some s := fun s hs => some_ne_none s
      ((((hf _).grows (supertypesWithin_grows n) _).known q s hs).symm.trans hapart)
    obtain ⟨hsame, hclear, hclear'⟩ := ihx hm hm' (eq_none_iff_forall_ne_some.2 hfirst)
      fun p s hp => hlow p s (((hf _).grows (supertypesWithin_grows n') _).known p s hp)
    simp only [bind_apply, ← hsame] at hapart hlow ⊢
    exact ihf _ hclear hclear' hapart hlow

lemma Acyclic.freshSupertypes_eq (h : Acyclic index) (hq : q ∈ index.names)
    (hread : q ∈ index.readable) :
    freshSupertypes index q = (findSupertypes index index.lineage q {}).1 := by
  obtain ⟨rank, hrank⟩ := h.ranked
  have hroom := Room.ofNames index
  obtain ⟨hsame, -, -⟩ := (Program.findSupertypes q).dialogue.outside hrank hroom
    (hroom.enter hread not_mem_nil) (clear_empty index) ((clear_empty index).enter rfl)
    (h.apart q hq) fun p s hp => hrank.lt_of_freshWork hq hp
  rw [freshSupertypes, supertypes_empty]
  exact hsame.symm

lemma Acyclic.fresh (h : Acyclic index) (history : List Question) :
    (after index history).Fresh index := by
  obtain ⟨rank, hrank⟩ := h.ranked
  exact hrank.fresh_after history

lemma Acyclic.supertypes_eq (h : Acyclic index) {info : TypeInfo}
    (hinfo : index.info q = some info) (history : List Question) :
    answer index history (.supertypes q) =
      (describeSupertypes index index.lineage q info (after index [.description q])).1 := by
  have hread : q ∈ index.readable := TypeIndex.mem_readable.2 (hinfo ▸ rfl)
  have hq : q ∈ index.names := index.mem_names q (TypeIndex.mem_readable.1 hread)
  have hfind : findSupertypes index index.lineage q {} =
      describeSupertypes index index.lineage q info (after index [.description q]) := by
    rw [findSupertypes, bind_apply, info_apply, hinfo]
    rfl
  rw [← hfind, ← h.freshSupertypes_eq hq hread]
  exact supertypes_after h.fresh history q

section

variable (h : Acyclic index) {q s self : String} {info : TypeInfo}
  (hinfo : index.info q = some info) {ref : TypeRef} {before : List Question}
  (hbound : answer index before (.refName ref) = .resolved s)

include h hbound

lemma Acyclic.supertypeOf_eq (hself : s ≠ self) (history : List Question) :
    (supertypeOf index index.lineage self ref (after index history)).1 = some s := by
  have hfound : (typeNameOf index index.lineage ref (after index history)).1 = .resolved s :=
    ((Program.typeNameOf ref).posed.answer_eq h.fresh history before).trans hbound
  rw [supertypeOf, bind_apply, hfound]
  exact if_pos (by simp [TypeName.isResolved, TypeName.resolved, hself])

lemma Acyclic.mem_filterMapM (hself : s ≠ self) {refs : List TypeRef} (href : ref ∈ refs)
    (history : List Question) :
    s ∈ (refs.filterMapM (supertypeOf index index.lineage self) (after index history)).1 := by
  have hposed (r : TypeRef) : Posed index (supertypeOf index index.lineage self r) :=
    (Program.supertypeOf self r).posed
  induction refs generalizing history with
  | nil => cases href
  | cons r refs ih =>
    obtain ⟨more, hmore⟩ := (hposed r).exists_after history
    rw [filterMapM_cons, bind_apply, hmore]
    rcases mem_cons.1 href with rfl | href
    · rw [h.supertypeOf_eq hbound hself history]
      exact mem_cons_self
    · cases (supertypeOf index index.lineage self r (after index history)).1 with
      | none => exact ih href _
      | some found => exact mem_cons_of_mem _ (ih href _)

include hinfo

lemma Acyclic.ne_self (href : ref ∈ info.superclass.toList ++ info.interfaces) : s ≠ q := by
  rintro rfl
  have hread : (index.info s).isSome := by rw [hinfo]; rfl
  exact h.proper s (index.mem_names s hread) info hinfo ref href
    (((Program.typeNameOf ref).posed.answer_eq h.fresh [] before).trans hbound)

lemma Acyclic.superclass_eq (hself : info.name = q) (hobject : q ≠ objectName)
    (href : info.superclass = some ref) (history : List Question) :
    answer index history (.superclass q) = some s := by
  have hsuper : answer index history (.superclass q) =
      (answer index history (.supertypes q)).superclass := rfl
  rw [hsuper, h.supertypes_eq hinfo, describeSupertypes, bind_apply]
  have hclass : (superclassOf index index.lineage info (after index [.description q])).1 =
    some s := by
    rw [superclassOf, hself, if_neg (by simpa using hobject), href]
    exact h.supertypeOf_eq hbound (h.ne_self hinfo hbound (by simp [href])) _
  rw [hclass]
  rfl

lemma Acyclic.mem_interfaces (href : ref ∈ info.interfaces) (history : List Question) :
    s ∈ (answer index history (.supertypes q)).interfaces := by
  obtain ⟨more, hmore⟩ := (Program.superclassOf info).posed.exists_after [.description q]
  rw [h.supertypes_eq hinfo, describeSupertypes, bind_apply, hmore]
  exact h.mem_filterMapM hbound (h.ne_self hinfo hbound (by simp [href])) href _

end

end Xref.Resolve
