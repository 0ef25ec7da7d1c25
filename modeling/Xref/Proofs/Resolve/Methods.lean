import Xref.Proofs.Resolve.Lineage

/-!
# The methods that a type has

A lookup goes through the lineage of a type and keeps the first of all methods with the same
parameters. An overridden method is left out if the type that overrides it comes first. That is so
for superclasses, but a lineage may list an interface before another one that extends it.
-/
open List

namespace Xref.Resolve

open Java

/-- Those of `cs` that come first among all with the same parameters. -/
structure FirstOf (cs found : List Candidate) : Prop where
  distinct : (found.map Candidate.params).Nodup
  listed : ∀ c ∈ cs, ∃ d ∈ found, d.params = c.params
  first : ∀ c ∈ found, ∃ before after, cs = before ++ c :: after ∧
    ∀ d ∈ before, d.params ≠ c.params

lemma firstOf_foldl (cs : List Candidate) : FirstOf cs (cs.foldl addCandidate []) := by
  induction cs using List.reverseRecOn with
  | nil => exact ⟨nodup_nil, by simp, by simp⟩
  | append_singleton cs c ih =>
    have hfirst : ∀ x ∈ cs.foldl addCandidate [], ∃ before after, cs ++ [c] = before ++ x :: after ∧
        ∀ d ∈ before, d.params ≠ x.params := by
      intro x hx
      obtain ⟨before, after, rfl, hbefore⟩ := ih.first x hx
      exact ⟨before, after ++ [c], by simp, hbefore⟩
    rw [foldl_concat, addCandidate]
    split
    case isTrue hsame =>
      obtain ⟨x, hx, hparams⟩ := any_eq_true.mp hsame
      refine ⟨ih.distinct, forall_mem_append.mpr ⟨ih.listed, ?_⟩, hfirst⟩
      exact forall_mem_singleton.mpr ⟨x, hx, eq_of_beq hparams⟩
    case isFalse hnew =>
      have hnew : ∀ x ∈ cs.foldl addCandidate [], x.params ≠ c.params := by simpa using hnew
      refine ⟨?_, forall_mem_append.mpr ⟨fun x hx => ?_, ?_⟩, forall_mem_append.mpr ⟨hfirst, ?_⟩⟩
      · rw [map_append, map_singleton, ← concat_eq_append, nodup_concat]
        exact ⟨by simpa using hnew, ih.distinct⟩
      · obtain ⟨d, hd, hparams⟩ := ih.listed x hx
        exact ⟨d, mem_append_left _ hd, hparams⟩
      · exact forall_mem_singleton.mpr ⟨c, by simp, rfl⟩
      · refine forall_mem_singleton.mpr ⟨cs, [], rfl, fun d hd hparams => ?_⟩
        obtain ⟨x, hx, hsame⟩ := ih.listed d hd
        exact hnew x hx (hsame.trans hparams)

/-- The list in which an element of a union stands, and the lists before it. -/
lemma split_flatMap {α β : Type} {f : α → List β} {l : List α} {before after : List β} {b : β}
    (h : l.flatMap f = before ++ b :: after) :
    ∃ front a rest, l = front ++ a :: rest ∧ b ∈ f a ∧ ∀ x ∈ front, ∀ y ∈ f x, y ∈ before := by
  induction l generalizing before with
  | nil => simp at h
  | cons a l ih =>
    rw [flatMap_cons] at h
    have hlater (rest : List β) (hbefore : before = f a ++ rest)
        (h : l.flatMap f = rest ++ b :: after) :
        ∃ front x rest, a :: l = front ++ x :: rest ∧ b ∈ f x ∧
          ∀ x ∈ front, ∀ y ∈ f x, y ∈ before := by
      obtain ⟨front, x, others, rfl, hb, hfront⟩ := ih h
      refine ⟨a :: front, x, others, rfl, hb, forall_mem_cons.mpr ⟨?_, fun x hx y hy => ?_⟩⟩
      · exact fun y hy => hbefore ▸ mem_append_left _ hy
      · exact hbefore ▸ mem_append_right _ (hfront x hx y hy)
    rcases append_eq_append_iff.mp h with ⟨rest, hbefore, h⟩ | ⟨rest, hfirst, h⟩
    · exact hlater rest hbefore h
    · cases rest with
      | nil => exact hlater [] (by simpa using hfirst.symm) h.symm
      | cons c rest =>
        obtain rfl := (List.cons.inj h).1
        exact ⟨[], a, l, rfl, by simp [hfirst], by simp⟩

/-- What a lookup finds in the types of `order` if these have the methods that `methodOf` tells. No
two methods have the same parameters, each method is there or another one has its parameters, and
the one that is there is of the earliest type that has these. -/
structure IsMethodSet (methodOf : String → Candidate → Prop) (order : List String)
    (found : List Candidate) : Prop where
  distinct : (found.map Candidate.params).Nodup
  listed : ∀ q ∈ order, ∀ c, methodOf q c → ∃! d, d ∈ found ∧ d.params = c.params
  first : ∀ c ∈ found, ∃ before q after, order = before ++ q :: after ∧ methodOf q c ∧
    ∀ p ∈ before, ∀ d, methodOf p d → d.params ≠ c.params

variable {index : TypeIndex} {m : Memory}

lemma Finds.isMethodSet (hm : m.active = []) {owner name : String} {found : List Candidate}
    (h : Finds m (index.findMethods owner name) found) :
    ∃ order, Finds m (index.lineage owner) order ∧
      IsMethodSet (MethodOf index m name) order found := by
  obtain ⟨order, horder, rfl, hmethods⟩ := h.exists_methods hm
  have hfirst := firstOf_foldl (order.flatMap fun q => (Resolve.qualifiedMethods index name q m).1)
  refine ⟨order, horder, hfirst.distinct, fun q hq c hc => ?_, fun c hc => ?_⟩
  · obtain ⟨d, hd, hparams⟩ := hfirst.listed c (mem_flatMap.mpr ⟨q, hq, (hmethods q hq c).1.mpr hc⟩)
    refine ⟨d, ⟨hd, hparams⟩, fun x hx => ?_⟩
    exact inj_on_of_nodup_map hfirst.distinct hx.1 hd (hx.2.trans hparams.symm)
  · obtain ⟨before, after, hsplit, hnew⟩ := hfirst.first c hc
    obtain ⟨front, q, rest, rfl, hmem, hfront⟩ := split_flatMap hsplit
    refine ⟨front, q, rest, rfl, (hmethods q (by simp) c).1.mp hmem, fun p hp d hd => ?_⟩
    exact hnew d (hfront p hp d ((hmethods p (by simp [hp]) d).1.mpr hd))

lemma isMethodSet_later (index : TypeIndex) (history more : List Question) (owner name : String) :
    let later := history ++ .findMethods owner name :: more
    IsMethodSet (MethodOf index (after index later) name) (answer index later (.lineage owner))
        (answer index history (.findMethods owner name)) ∧
      IsLineage (fun t => answer index later (.supertypes t)) index owner
        (answer index later (.lineage owner)) := by
  intro later
  obtain ⟨order, horder, hset⟩ := Finds.isMethodSet (after_active index later)
    (pose_again index history more (.findMethods owner name))
  have hanswer : answer index later (.lineage owner) = order := congrArg Prod.fst horder
  rw [hanswer]
  exact ⟨hset, horder.isLineage (during_after index later)⟩

/-- At every time of a run, for every type and every name: a lookup finds no two methods with the
same parameters; every method of that name in the lineage is represented by exactly one that has its
parameters; and that one comes from the earliest type of the lineage which declares these. -/
theorem isMethodSet_of_answer (index : TypeIndex) (history more : List Question)
    (owner name : String) :
    let later := history ++ .findMethods owner name :: more
    IsMethodSet (MethodOf index (after index later) name) (answer index later (.lineage owner))
      (answer index history (.findMethods owner name)) :=
  (isMethodSet_later index history more owner name).1

variable {report : String → Supertypes}

lemma IsSuperclassChain.mem_of_reach {q t : String} {chain : List String}
    (h : IsSuperclassChain report q chain)
    (ht : Relation.ReflTransGen (IsSuperclass report) q t) : t ∈ chain := by
  induction ht with
  | refl => exact mem_of_mem_head? h.head
  | tail _ hsuper ih =>
    obtain ⟨before, after, rfl⟩ := append_of_mem ih
    cases after with
    | nil => exact h.ends _ _ (by simp) hsuper
    | cons next after =>
      have hnext := (isChain_cons_cons.mp h.linked.right_of_append).1
      obtain rfl := Option.some.inj (hnext.symm.trans hsuper)
      simp

lemma IsSuperclassChain.transGen {q a b : String} {before after : List String}
    (h : IsSuperclassChain report q (before ++ a :: after)) (hb : b ∈ after) :
    Relation.TransGen (IsDirect report) a b := by
  have hlinked : (a :: after).IsChain (Relation.TransGen (IsDirect report)) :=
    h.linked.right_of_append.imp fun _ _ hsuper => .single hsuper.isDirect
  exact rel_of_pairwise_cons hlinked.pairwise hb

/-- Without cycles, a type that is listed first and has a proper subtype further back is no
superclass of it in the chain. -/
lemma IsLineage.behind {owner q d : String} {before after : List String}
    (h : IsLineage report index owner (before ++ q :: after))
    (hacyclic : ∀ t, ¬ Relation.TransGen (IsDirect report) t t)
    (hsub : Relation.TransGen (IsDirect report) d q) (hd : d ∈ before ++ q :: after)
    (hbefore : d ∉ before) :
    (before ++ q :: after).idxOf q < (before ++ q :: after).idxOf d ∧
      ¬ Relation.ReflTransGen (IsSuperclass report) owner d := by
  have hne : d ≠ q := fun heq => hacyclic q (heq ▸ hsub)
  have hq : q ∉ before := fun hq => disjoint_of_nodup_append h.nodup hq mem_cons_self
  refine ⟨?_, fun hsuper => ?_⟩
  · rw [idxOf_append_of_notMem hq, idxOf_append_of_notMem hbefore, idxOf_cons_self,
      idxOf_cons_ne _ hne.symm]
    omega
  · obtain ⟨chain, hchain, ⟨rest, hrest⟩, -⟩ := h.chain
    have hmem := hchain.mem_of_reach hsuper
    rcases append_eq_append_iff.mp hrest with ⟨others, rfl, -⟩ | ⟨others, rfl, hothers⟩
    · exact hbefore (mem_append_left _ hmem)
    · cases others with
      | nil => exact hbefore (by simpa using hmem)
      | cons first others =>
        obtain rfl := (List.cons.inj hothers).1
        have hlater : d ∈ others := by simpa [hbefore, hne] using hmem
        exact hacyclic d (hsub.trans (hchain.transGen hlater))

/-- Without cycles, a method that is found can only be overridden in a type which the lineage lists
behind the one that declares it, and which is neither the owner nor one of its superclasses. In
particular no method is found that the owner or a superclass of it overrides. -/
theorem overridden_only_behind (index : TypeIndex) (history more : List Question)
    (owner name : String)
    (hacyclic : ∀ t, ¬ Relation.TransGen (IsDirect fun t =>
      answer index (history ++ .findMethods owner name :: more) (.supertypes t)) t t) :
    let later := history ++ .findMethods owner name :: more
    let report := fun t => answer index later (.supertypes t)
    let order := answer index later (.lineage owner)
    ∀ c ∈ answer index history (.findMethods owner name), ∃ q ∈ order,
      MethodOf index (after index later) name q c ∧
        ∀ d ∈ order, Relation.TransGen (IsDirect report) d q →
          (∃ x, MethodOf index (after index later) name d x ∧ x.params = c.params) →
          order.idxOf q < order.idxOf d ∧ ¬ Relation.ReflTransGen (IsSuperclass report)
            owner d := by
  intro later report order c hc
  obtain ⟨hset, hlineage⟩ := isMethodSet_later index history more owner name
  obtain ⟨before, q, after, horder, hmethod, hfirst⟩ := hset.first c hc
  have horder : order = before ++ q :: after := horder
  rw [show answer index later (.lineage owner) = _ from horder] at hlineage
  rw [horder]
  refine ⟨q, by simp, hmethod, fun d hd hsub hoverrides => ?_⟩
  obtain ⟨x, hx, hparams⟩ := hoverrides
  exact hlineage.behind hacyclic hsub hd fun hbefore => hfirst d hbefore x hx hparams

lemma acyclic_of_rank (index : TypeIndex) (history : List Question) (rank : String → Nat)
    (h : ∀ a ∈ index.names, ∀ b ∈ (answer index history (.supertypes a)).direct, rank b < rank a)
    (t : String) :
    ¬ Relation.TransGen (IsDirect fun t => answer index history (.supertypes t)) t t := by
  have hstep {a b : String} (hab : IsDirect (fun t => answer index history (.supertypes t)) a b) :
      rank b < rank a := by
    have hread := readable_of_isDirect (sound_after history) hab
    exact h a (index.mem_names a (TypeIndex.mem_readable.mp hread)) b hab
  have hless {a b : String}
      (hab : Relation.TransGen (IsDirect fun t => answer index history (.supertypes t)) a b) :
      rank b < rank a := by
    induction hab with
    | single hab => exact hstep hab
    | tail _ hbc ih => exact (hstep hbc).trans ih
  exact fun hcycle => Nat.lt_irrefl _ (hless hcycle)

def plainMethod (returns : String) : MethodInfo where
  name := "m"
  params := []
  returnType := some (.qualified returns)
  isStatic := false
  isVarargs := false
  isConstructor := false

def typeWithMethod (name : String) (kind : TypeKind) (superclass : Option String)
    (interfaces : List String) (returns : String) : TypeInfo where
  name := name
  package := ""
  kind := kind
  superclass := superclass.map .qualified
  interfaces := interfaces.map .qualified
  fields := []
  methods := [plainMethod returns]
  origin := .source "A.java"

def overridingClass : TypeIndex :=
  .ofTypes [typeWithMethod "A" .classType (some "B") [] "A",
    typeWithMethod "B" .classType none [] "B"]

/-- Here a method is found, and it is not of a type that the class extends. -/
theorem not_overridden_in_class :
    (∀ t, ¬ Relation.TransGen (IsDirect fun t =>
        answer overridingClass [.findMethods "A" "m"] (.supertypes t)) t t) ∧
      answer overridingClass [] (.findMethods "A" "m") ≠ [] ∧
      ∀ c ∈ answer overridingClass [] (.findMethods "A" "m"), ∃ q,
        MethodOf overridingClass (after overridingClass [.findMethods "A" "m"]) "m" q c ∧
          ¬ Relation.TransGen (IsDirect fun t =>
            answer overridingClass [.findMethods "A" "m"] (.supertypes t)) "A" q := by
  have hacyclic := acyclic_of_rank overridingClass [.findMethods "A" "m"] (["B", "A"].idxOf ·)
    (by decide +kernel)
  refine ⟨hacyclic, by decide +kernel, fun c hc => ?_⟩
  obtain ⟨q, -, hmethod, honly⟩ :=
    overridden_only_behind overridingClass [] [] "A" "m" hacyclic c hc
  have hparams : ∀ c ∈ answer overridingClass [] (.findMethods "A" "m"), [] = c.params := by
    decide +kernel
  exact ⟨q, hmethod, fun hsub => (honly "A" (by decide +kernel) hsub
    ⟨_, ⟨_, _, rfl, List.mem_singleton_self _, rfl⟩, hparams c hc⟩).2 .refl⟩

/-- An interface, one that extends it and overrides its method, and a class that names both, the
first one first. -/
def extendedInterface : TypeIndex :=
  .ofTypes [typeWithMethod "I" .interfaceType none [] "I",
    typeWithMethod "J" .interfaceType none ["I"] "J",
    { typeWithMethod "A" .classType none ["I", "J"] "A" with methods := [] }]

/-- There is no cycle, and yet the method of `I` is found, which `J` overrides. -/
theorem overridden_in_extended_interface :
    let later : List Question := [.findMethods "A" "m"]
    let report := fun t => answer extendedInterface later (.supertypes t)
    (∀ t, ¬ Relation.TransGen (IsDirect report) t t) ∧
      ∃ c ∈ answer extendedInterface [] (.findMethods "A" "m"), c.declaringType = "I" ∧
        "J" ∈ answer extendedInterface later (.lineage "A") ∧
        Relation.TransGen (IsDirect report) "J" "I" ∧
        ∃ x, MethodOf extendedInterface (after extendedInterface later) "m" "J" x ∧
          x.params = c.params := by
  intro later report
  have hfound : answer extendedInterface [] (.findMethods "A" "m") =
      [(candidate extendedInterface extendedInterface.lineage
        (typeWithMethod "I" .interfaceType none [] "I") (plainMethod "I") {}).1] := by
    decide +kernel
  refine ⟨acyclic_of_rank extendedInterface later (["I", "J", "A"].idxOf ·) (by decide +kernel), ?_⟩
  rw [hfound]
  refine ⟨_, List.mem_singleton_self _, rfl, by decide +kernel, .single ?_,
    _, ⟨_, _, rfl, List.mem_singleton_self _, rfl⟩, rfl⟩
  exact (by decide +kernel : "I" ∈ (answer extendedInterface later (.supertypes "J")).direct)

end Xref.Resolve
