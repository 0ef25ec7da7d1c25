import Mathlib.Data.List.Chain
import Mathlib.Logic.Relation
import Xref.Proofs.Resolve.Finding
import Xref.Proofs.Resolve.Termination

/-!
# Lineages are closures

A lineage is made by two loops that share one list: the first follows superclasses, the second goes
over the list while it grows. In the memory that it leaves behind, it has each name once, exactly
the names that direct supertypes lead to, and behind the superclasses each name stands after one
that names it.
-/
open List

namespace Xref.Resolve

open Java

section

variable (report : String → Supertypes)

def IsSuperclass (a b : String) : Prop := (report a).superclass = some b

def IsDirect (a b : String) : Prop := b ∈ (report a).direct

/-- The superclasses of `q`, up to one that is missing or comes again. -/
structure IsSuperclassChain (q : String) (chain : List String) : Prop where
  head : chain.head? = some q
  linked : chain.IsChain (IsSuperclass report)
  ends : ∀ last s, chain.getLast? = some last → IsSuperclass report last s → s ∈ chain

/-- Behind `base`, each name stands after one that names it as a direct supertype. -/
structure Supported (base order : List String) : Prop where
  starts : base <+: order
  support : ∀ before t, before ++ [t] <+: order → base.length ≤ before.length →
    ∃ u ∈ before, IsDirect report u t

/-- What a type and its supertypes in order are, by the reports of a resolver. The root class may
stand at the end without having been named. -/
structure IsLineage (index : TypeIndex) (q : String) (order : List String) : Prop where
  nodup : order.Nodup
  chain : ∃ chain, IsSuperclassChain report q chain ∧ chain <+: order ∧
    ∀ before t, before ++ [t] <+: order → chain.length ≤ before.length →
      t = objectName ∧ before ++ [t] = order ∨ ∃ u ∈ before, IsDirect report u t
  mem_iff : ∀ t, t ∈ order ↔
    Relation.ReflTransGen (IsDirect report) q t ∨ t = objectName ∧ index.contains objectName

end

variable {report : String → Supertypes}

lemma IsSuperclass.isDirect {a b : String} (h : IsSuperclass report a b) : IsDirect report a b := by
  rw [IsDirect, Supertypes.direct, h]
  exact mem_cons_self

namespace Supported

variable {base order wider : List String}

lemma refl (order : List String) : Supported report order order where
  starts := prefix_rfl
  support before t h hlength := by
    have hle := h.length_le
    rw [length_append, length_singleton] at hle
    omega

lemma trans (h : Supported report base order) (h' : Supported report order wider) :
    Supported report base wider where
  starts := h.starts.trans h'.starts
  support before t ht hlength := by
    by_cases hshort : before.length < order.length
    · exact h.support before t (prefix_of_prefix_length_le ht h'.starts (by simp; omega)) hlength
    · exact h'.support before t ht (by omega)

lemma concat {u t : String} (hu : u ∈ order) (ht : IsDirect report u t) :
    Supported report order (order ++ [t]) where
  starts := prefix_append order [t]
  support before x hx hlength := by
    have hle := hx.length_le
    simp only [length_append, length_singleton] at hle
    obtain ⟨rfl, hlast⟩ := append_inj' (hx.eq_of_length (by simp; omega)) rfl
    obtain rfl : x = t := by simpa using hlast
    exact ⟨u, hu, ht⟩

lemma reach {q : String} (h : Supported report [q] order) :
    ∀ t ∈ order, Relation.ReflTransGen (IsDirect report) q t := by
  suffices hall : ∀ part, part <+: order → ∀ t ∈ part, Relation.ReflTransGen (IsDirect report) q t
    from hall order prefix_rfl
  intro part
  induction part using List.reverseRecOn with
  | nil => simp
  | append_singleton before x ih =>
    intro hpart t ht
    have hbefore := ih ((prefix_append before [x]).trans hpart)
    rcases mem_append.mp ht with ht | ht
    · exact hbefore t ht
    obtain rfl := mem_singleton.mp ht
    cases before with
    | nil =>
      obtain ⟨rest, hrest⟩ := h.starts
      obtain ⟨rest', hrest'⟩ := hpart
      rw [← hrest] at hrest'
      obtain rfl : t = q := (List.cons.inj hrest').1
      exact .refl
    | cons first before =>
      obtain ⟨u, hu, hdirect⟩ := h.support _ t hpart (by simp)
      exact (hbefore u hu).tail hdirect

end Supported

variable {order names : List String} {t : String}

lemma mem_addNew {name : String} : t ∈ addNew order name ↔ t ∈ order ∨ t = name := by
  unfold addNew
  split
  case isTrue hmem =>
    have hname : name ∈ order := by simpa using hmem
    exact ⟨.inl, fun h => h.elim id fun h => h ▸ hname⟩
  case isFalse => simp

lemma mem_foldl_addNew : t ∈ names.foldl addNew order ↔ t ∈ order ∨ t ∈ names := by
  induction names generalizing order with
  | nil => simp
  | cons name names ih => rw [foldl_cons, ih, mem_addNew, mem_cons, or_assoc]

lemma supported_foldl_addNew (h : ∀ t ∈ names, ∃ u ∈ order, IsDirect report u t) :
    Supported report order (names.foldl addNew order) := by
  induction names generalizing order with
  | nil => exact .refl order
  | cons name names ih =>
    obtain ⟨⟨u, hu, hname⟩, hnames⟩ := forall_mem_cons.mp h
    have hfirst : Supported report order (addNew order name) := by
      unfold addNew
      split
      · exact .refl order
      · exact .concat hu hname
    refine hfirst.trans (ih fun t ht => ?_)
    obtain ⟨v, hv, hdirect⟩ := hnames t ht
    exact ⟨v, mem_addNew.mpr (.inl hv), hdirect⟩

variable {index : TypeIndex} {m : Memory} {n : Nat}

/-- The direct supertypes that a resolver reports if it remembers `m`. -/
abbrev reportOf (index : TypeIndex) (m : Memory) (q : String) : Supertypes :=
  (supertypes index q m).1

lemma readable_of_isDirect (hm : m.Sound index) {a b : String}
    (h : IsDirect (reportOf index m) a b) : a ∈ index.readable := by
  have hsound : reportOf index m a ≠ {} → a ∈ index.readable := (supertypesWithin_sound _ a hm).2
  refine hsound fun hnone => ?_
  rw [IsDirect, hnone] at h
  cases h

lemma Finds.superclassChain (hm : m.During index []) {current : String} {before chain : List String}
    (hnodup : (before ++ [current]).Nodup) (hread : ∀ p ∈ before, p ∈ index.readable)
    (hlinked : (before ++ [current]).IsChain (IsSuperclass (reportOf index m)))
    (hn : index.readable.card + 1 ≤ n + before.length)
    (h : Finds m (superclassChain (supertypes index) n current (before ++ [current])) chain) :
    chain.Nodup ∧ Supported (reportOf index m) (before ++ [current]) chain ∧
      chain.IsChain (IsSuperclass (reportOf index m)) ∧
      ∀ last s, chain.getLast? = some last → IsSuperclass (reportOf index m) last s →
        s ∈ chain := by
  induction n generalizing current before with
  | zero =>
    have hlength := length_le_readable index hnodup.of_append_left hread
    omega
  | succ n ih =>
    obtain ⟨s, hs, h⟩ := of_bind hm.2 (.supertypes current) (fun s => by
      cases s.superclass with
      | none => exact .pure _
      | some next => exact .ite _ (.pure _) (Dialogue.superclassChain n next _).posed.stable) h
    have hreport : reportOf index m current = s := congrArg Prod.fst hs
    have hdone (hnew : ∀ next, s.superclass = some next → next ∈ before ++ [current])
        (heq : before ++ [current] = chain) :
        chain.Nodup ∧ Supported (reportOf index m) (before ++ [current]) chain ∧
          chain.IsChain (IsSuperclass (reportOf index m)) ∧ ∀ last s, chain.getLast? = some last →
            IsSuperclass (reportOf index m) last s → s ∈ chain := by
      subst heq
      refine ⟨hnodup, .refl _, hlinked, fun last next hlast hnext => hnew next ?_⟩
      rw [getLast?_concat] at hlast
      rwa [← Option.some.inj hlast, IsSuperclass, hreport] at hnext
    cases hnext : s.superclass with
    | none =>
      rw [hnext] at h
      exact hdone (by simp [hnext]) (pure_iff.mp h)
    | some next =>
      rw [hnext] at h
      dsimp only at h
      split at h
      case isTrue hmem =>
        refine hdone (fun other hother => ?_) (pure_iff.mp h)
        obtain rfl : next = other := Option.some.inj (hnext.symm.trans hother)
        simpa using hmem
      case isFalse hmem =>
        have hsuper : IsSuperclass (reportOf index m) current next := by
          rw [IsSuperclass, hreport, hnext]
        have hcurrent := readable_of_isDirect hm.1 hsuper.isDirect
        have hlonger : (before ++ [current] ++ [next]).Nodup :=
          nodup_append_comm.mp (nodup_cons.mpr ⟨by simpa using hmem, hnodup⟩)
        obtain ⟨hnodup', hsupported, hrest⟩ := ih hlonger
          (forall_mem_append.mpr ⟨hread, forall_mem_singleton.mpr hcurrent⟩)
          (hlinked.append (.singleton next) fun x hx y hy => by
            rw [getLast?_concat] at hx
            obtain rfl := Option.some.inj hx
            obtain rfl := Option.some.inj hy
            exact hsuper)
          (by simp; omega) h
        exact ⟨hnodup', (Supported.concat (by simp) hsuper.isDirect).trans hsupported, hrest⟩

lemma Finds.addSupertypes (hm : m.active = []) {layer wider : List String}
    (h : Finds m (layer.foldlM (addSupertypes (supertypes index)) order) wider) :
    wider = (layer.flatMap fun q => (reportOf index m q).direct).foldl addNew order := by
  have hstable (order : List String) (q : String) :
      Stable (Resolve.addSupertypes (supertypes index) order q) :=
    .bind (.supertypes q) fun _ => .pure _
  induction layer generalizing order with
  | nil => exact (pure_iff.mp h).symm
  | cons q layer ih =>
    rw [foldlM_cons] at h
    obtain ⟨next, hnext, h⟩ :=
      of_bind hm (hstable order q) (fun order => .foldlM hstable layer order) h
    have hfirst : next = (reportOf index m q).direct.foldl addNew order :=
      (congrArg Prod.fst hnext).symm
    rw [ih h, hfirst, flatMap_cons, List.foldl_append]

lemma Finds.widen (hm : m.During index []) {done layer : List String}
    (hnodup : (done ++ layer).Nodup)
    (hdone : ∀ t ∈ done, ∀ u, IsDirect (reportOf index m) t u → u ∈ done ++ layer)
    (hn : index.readable.card + 1 ≤ n + done.countP (· ∈ index.readable))
    (h : Finds m (widen (supertypes index) n layer (done ++ layer)) order) :
    order.Nodup ∧ Supported (reportOf index m) (done ++ layer) order ∧
      ∀ t ∈ order, ∀ u, IsDirect (reportOf index m) t u → u ∈ order := by
  induction n generalizing done layer with
  | zero =>
    have hcount := countP_le_readable index hnodup.of_append_left
    omega
  | succ n ih =>
    obtain ⟨wider, hwider, h⟩ := of_bind hm.2
      (.foldlM (fun order q => .bind (.supertypes q) fun _ => .pure _) layer _)
      (fun wider => .ite _ (.pure wider) (Dialogue.widen n _ wider).posed.stable) h
    have hwider := addSupertypes hm.2 hwider
    obtain ⟨hnodup', hprefix⟩ := foldl_addNew
      (layer.flatMap fun q => (reportOf index m q).direct) hnodup
    have hsupported : Supported (reportOf index m) (done ++ layer)
        ((layer.flatMap fun q => (reportOf index m q).direct).foldl addNew (done ++ layer)) := by
      refine supported_foldl_addNew fun t ht => ?_
      obtain ⟨u, hu, hdirect⟩ := mem_flatMap.mp ht
      exact ⟨u, mem_append_right _ hu, hdirect⟩
    have hclosed : ∀ t ∈ done ++ layer, ∀ u, IsDirect (reportOf index m) t u → u ∈ wider := by
      intro t ht u hu
      rw [hwider, mem_foldl_addNew]
      rcases mem_append.mp ht with ht | ht
      · exact .inl (hdone t ht u hu)
      · exact .inr (mem_flatMap.mpr ⟨t, ht, hu⟩)
    rw [← hwider] at hnodup' hprefix hsupported
    obtain ⟨next, rfl⟩ := hprefix
    rw [drop_left] at h
    cases next with
    | nil =>
      obtain rfl := pure_iff.mp h
      exact ⟨hnodup', hsupported, fun t ht => hclosed t (by simpa using ht)⟩
    | cons x next =>
      -- a round that finds something new has visited a readable type
      obtain ⟨u, hu, hdirect⟩ : ∃ u ∈ layer, IsDirect (reportOf index m) u x := by
        have hx : x ∈ done ++ layer ++ x :: next := by simp
        rw [hwider, mem_foldl_addNew] at hx
        have hnew : x ∉ done ++ layer := fun hold =>
          disjoint_of_nodup_append hnodup' hold mem_cons_self
        exact mem_flatMap.mp (hx.resolve_left hnew)
      have hlayer : 0 < layer.countP (· ∈ index.readable) :=
        countP_pos_iff.mpr ⟨u, hu, by simpa using readable_of_isDirect hm.1 hdirect⟩
      obtain ⟨hlast, hsupported', hall⟩ := ih hnodup' hclosed (by rw [countP_append]; omega) h
      exact ⟨hlast, hsupported.trans hsupported', hall⟩

lemma Finds.isLineage (hm : m.During index []) {q : String}
    (h : Finds m (index.lineage q) order) : IsLineage (reportOf index m) index q order := by
  have hcard := index.card_readable_le
  obtain ⟨chain, hchain, h⟩ := of_bind hm.2 (Dialogue.superclassChain _ q [q]).posed.stable
    (fun chain => .bind (Dialogue.widen _ chain chain).posed.stable fun _ => .pure _) h
  obtain ⟨wide, hwide, h⟩ := of_bind hm.2 (Dialogue.widen _ chain chain).posed.stable
    (fun _ => .pure _) h
  have h := pure_iff.mp h
  have hstart : ([] ++ [q]).Nodup := nodup_singleton q
  obtain ⟨hnodup, hsupported, hlinked, hends⟩ := superclassChain hm hstart (by simp)
    (.singleton q) (by simp; omega) hchain
  have hlayer : ([] ++ chain).Nodup := hnodup
  obtain ⟨hnodup', hsupported', hclosed⟩ := widen hm hlayer (by simp) (by simp; omega) hwide
  have hreach := (hsupported.trans hsupported').reach
  have hfirst : q ∈ wide := hsupported'.starts.subset (hsupported.starts.subset (by simp))
  have hmem (t : String) : t ∈ wide ↔ Relation.ReflTransGen (IsDirect (reportOf index m)) q t := by
    refine ⟨hreach t, fun ht => ?_⟩
    induction ht with
    | refl => exact hfirst
    | tail _ hdirect ih => exact hclosed _ ih _ hdirect
  have hhead : chain.head? = some q := by
    obtain ⟨rest, rfl⟩ := hsupported.starts
    rfl
  have hbehind {before : List String} {t : String} (ht : before ++ [t] <+: wide)
      (hlength : chain.length ≤ before.length) : ∃ u ∈ before, IsDirect (reportOf index m) u t :=
    hsupported'.support before t ht hlength
  by_cases hobject : index.contains objectName
  · rw [if_pos hobject] at h
    subst h
    refine ⟨addNew_nodup hnodup' objectName, ⟨chain, ⟨hhead, hlinked, hends⟩,
      hsupported'.starts.trans (prefix_addNew wide objectName), fun before t ht hlength => ?_⟩,
      fun t => ?_⟩
    · unfold addNew at ht ⊢
      split at ht
      case isTrue hold => exact .inr (hbehind ht hlength)
      case isFalse hnew =>
        rw [if_neg hnew]
        rcases prefix_concat_iff.mp ht with ht | ht
        · obtain ⟨-, hlast⟩ := append_inj' ht rfl
          exact .inl ⟨by simpa using hlast, ht⟩
        · exact .inr (hbehind ht hlength)
    · rw [mem_addNew, hmem, hobject]
      simp
  · rw [if_neg hobject] at h
    subst h
    refine ⟨hnodup', ⟨chain, ⟨hhead, hlinked, hends⟩, hsupported'.starts, fun before t ht hlength =>
      .inr (hbehind ht hlength)⟩, fun t => ?_⟩
    rw [hmem]
    simp [hobject]

/-- At every time of a run and for every hierarchy, cyclic ones included, the lineage of a type is
the closure of the direct supertypes that the resolver reports from then on: each name once, the
type and its superclasses first, and behind these each name after one that names it, but for a root
class at the end. -/
theorem isLineage_of_answer (index : TypeIndex) (history more : List Question) (q : String) :
    IsLineage (fun t => answer index (history ++ .lineage q :: more) (.supertypes t)) index q
      (answer index history (.lineage q)) :=
  Finds.isLineage (during_after index _) (pose_again index history more (.lineage q))

end Xref.Resolve
