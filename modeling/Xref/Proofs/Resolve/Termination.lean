import Mathlib.Data.Finset.Card
import Xref.Proofs.Resolve.History

/-!
# Questions come to an end

Loops and nested questions carry bounds on the number of their rounds, which are never reached: a
computation that has used up its rounds is continued in an arbitrary way, and its result does not
depend on that way. One round more than there are readable types is enough, since each round but the
last one visits a readable type that was not visited before.
-/
open List

namespace Xref.Resolve

open Java

variable {q : String} {m : Memory} {order : List String}

/-- How loops and nested questions go on where their rounds are used up. -/
structure Remainder where
  supertypes : Ask
  chain : String → List String → Query (List String)
  widen : List String → List String → Query (List String)

def superclassChainThen (ask : Ask) (rest : String → List String → Query (List String)) :
    Nat → String → List String → Query (List String)
  | 0, current, order => rest current order
  | n + 1, current, order => do
    match (← ask current).superclass with
    | none => return order
    | some s =>
      if order.contains s then return order
      else superclassChainThen ask rest n s (order ++ [s])

def widenThen (ask : Ask) (rest : List String → List String → Query (List String)) :
    Nat → List String → List String → Query (List String)
  | 0, layer, order => rest layer order
  | n + 1, layer, order => do
    let wider ← layer.foldlM (addSupertypes ask) order
    let next := wider.drop order.length
    if next.isEmpty then return wider else widenThen ask rest n next wider

/-- `linearization` with `rounds` rounds for each loop, and `rest` after these. -/
def linearizationThen (index : TypeIndex) (rest : Remainder) (rounds : Nat) (ask : Ask)
    (q : String) : Query (List String) := do
  let chain ← superclassChainThen ask rest.chain rounds q [q]
  let order ← widenThen ask rest.widen rounds chain chain
  return if index.contains objectName then addNew order objectName else order

/-- `supertypesWithin` with `rounds` rounds for each loop, and `rest` after these and below `n`
nested questions. -/
def supertypesThen (index : TypeIndex) (rest : Remainder) (rounds : Nat) : Nat → Ask
  | 0 => rest.supertypes
  | n + 1 =>
    supertypesBy index (linearizationThen index rest rounds (supertypesThen index rest rounds n))

variable {index : TypeIndex} {lineage : Lineage} {ask : Ask} {l : List String}

def TypeIndex.readable (index : TypeIndex) : Finset String :=
  index.names.toFinset.filter fun q => (index.info q).isSome

@[simp] lemma TypeIndex.mem_readable : q ∈ index.readable ↔ (index.info q).isSome := by
  simp only [readable, Finset.mem_filter, mem_toFinset, and_iff_right_iff_imp]
  exact index.mem_names q

lemma TypeIndex.card_readable_le (index : TypeIndex) : index.readable.card ≤ index.names.length :=
  (Finset.card_filter_le _ _).trans (toFinset_card_le _)

def Memory.Sound (index : TypeIndex) (m : Memory) : Prop :=
  ∀ q s, m.known.lookup q = some s → s ≠ {} → q ∈ index.readable

lemma findSupertypes_of_unreadable (lineage : Lineage) (h : index.info q = none)
    (m : Memory) : findSupertypes index lineage q m = ({}, m.consult index q) := by
  rw [findSupertypes, bind_apply, info_apply]
  simp only [h]
  rfl

lemma readable_of_findSupertypes (h : (findSupertypes index lineage q m).1 ≠ {}) :
    q ∈ index.readable := by
  rw [TypeIndex.mem_readable, Option.isSome_iff_ne_none]
  intro hinfo
  rw [findSupertypes_of_unreadable lineage hinfo] at h
  exact h rfl

lemma Memory.Sound.consult (hm : m.Sound index) (q : String) : (m.consult index q).Sound index :=
  fun p s hp => hm p s (m.consult_known q ▸ hp)

lemma supertypesBy_sound (hask : ∀ q m, Memory.Sound index m → (ask q m).2.Sound index) (q : String)
    (hm : m.Sound index) :
    (supertypesBy index (linearization index ask) q m).2.Sound index ∧
      ((supertypesBy index (linearization index ask) q m).1 ≠ {} → q ∈ index.readable) := by
  cases hk : m.known.lookup q with
  | some s =>
    rw [supertypesBy_of_known hk]
    exact ⟨hm, hm q s hk⟩
  | none =>
    by_cases ha : q ∈ m.active
    · rw [supertypesBy_of_active hk ha]
      exact ⟨hm, fun h => absurd rfl h⟩
    · rw [supertypesBy_of_new hk ha]
      refine ⟨fun p s hp hs => ?_, readable_of_findSupertypes⟩
      rw [Memory.lookup_leave] at hp
      split at hp
      · next hpq =>
        obtain rfl : _ = s := Option.some.inj hp
        exact hpq ▸ readable_of_findSupertypes hs
      · have henter : (m.enter q).Sound index := hm
        exact (Program.findSupertypes q).dialogue.keeps hask (fun q _ hm => hm.consult q) henter
          p s hp hs

/-- Asking keeps a memory sound, and only readable types are answered with supertypes. -/
lemma supertypesWithin_sound (n : Nat) (q : String) (hm : m.Sound index) :
    (supertypesWithin index n q m).2.Sound index ∧
      ((supertypesWithin index n q m).1 ≠ {} → q ∈ index.readable) := by
  induction n generalizing q m with
  | zero => exact ⟨hm, fun h => absurd rfl h⟩
  | succ n ih => exact supertypesBy_sound (fun q m hm => (ih q hm).1) q hm

lemma sound_after (history : List Question) : (after index history).Sound index := by
  refine after_invariant index (fun q s h => ?_) (fun q m hm => ?_) history
  · simp at h
  · exact (q.routine index).dialogue.keeps (P := Memory.Sound index)
      (fun q m hm => (supertypesWithin_sound _ q hm).1) (fun q m hm => hm.consult q) hm

lemma length_le_readable (index : TypeIndex) (hnodup : l.Nodup) (hl : ∀ p ∈ l, p ∈ index.readable) :
    l.length ≤ index.readable.card := by
  rw [← toFinset_card_of_nodup hnodup]
  exact Finset.card_le_card fun p hp => hl p (mem_toFinset.1 hp)

lemma countP_le_readable (index : TypeIndex) (hnodup : l.Nodup) :
    l.countP (· ∈ index.readable) ≤ index.readable.card := by
  rw [countP_eq_length_filter]
  refine length_le_readable index (hnodup.filter _) fun p hp => ?_
  simpa using (mem_filter.1 hp).2

lemma length_le_of_chain {current : String} (hnodup : order.Nodup)
    (hcurrent : current ∈ order) (horder : ∀ p ∈ order, p ≠ current → p ∈ index.readable) :
    order.length ≤ index.readable.card + 1 := by
  have hrest : ∀ p ∈ order.erase current, p ∈ index.readable := by
    intro p hp
    obtain ⟨hne, hmem⟩ := hnodup.mem_erase_iff.1 hp
    exact horder p hmem hne
  have hlength := length_le_readable index (hnodup.erase current) hrest
  rw [length_erase_of_mem hcurrent] at hlength
  omega

lemma addNew_nodup (h : order.Nodup) (name : String) : (addNew order name).Nodup := by
  by_cases hmem : name ∈ order
  · simpa [addNew, hmem] using h
  · have hnew : (order ++ [name]).Nodup := by
      rw [nodup_append_comm]
      exact nodup_cons.2 ⟨hmem, h⟩
    simpa [addNew, hmem] using hnew

lemma prefix_addNew (order : List String) (name : String) : order <+: addNew order name := by
  unfold addNew
  split
  · exact prefix_refl order
  · exact prefix_append order [name]

lemma foldl_addNew (names : List String) (h : order.Nodup) :
    (names.foldl addNew order).Nodup ∧ order <+: names.foldl addNew order := by
  induction names generalizing order with
  | nil => exact ⟨h, prefix_refl order⟩
  | cons name names ih =>
    obtain ⟨hnodup, hprefix⟩ := ih (addNew_nodup h name)
    exact ⟨hnodup, (prefix_addNew order name).trans hprefix⟩

/-- `ask` and `ask'` agree while the memory satisfies `I`, which they keep. They answer with
supertypes for readable types only. -/
structure Agree (index : TypeIndex) (I : Memory → Prop) (ask ask' : Ask) : Prop where
  same : ∀ q m, I m → ask q m = ask' q m
  keeps : ∀ q m, I m → I (ask' q m).2
  readable : ∀ q m, I m → (ask' q m).1 ≠ {} → q ∈ index.readable

section

variable {I : Memory → Prop} {ask ask' : Ask} (hagree : Agree index I ask ask')
include hagree

lemma superclassChainThen_eq (rest : String → List String → Query (List String)) (n n' : Nat)
    {current : String} (hm : I m) (hnodup : order.Nodup) (hcurrent : current ∈ order)
    (horder : ∀ p ∈ order, p ≠ current → p ∈ index.readable)
    (hn : index.readable.card + 2 ≤ n + order.length)
    (hn' : index.readable.card + 2 ≤ n' + order.length) :
    superclassChainThen ask rest n current order m = superclassChain ask' n' current order m ∧
      I (superclassChain ask' n' current order m).2 ∧
      (superclassChain ask' n' current order m).1.Nodup := by
  induction n generalizing n' current order m with
  | zero =>
    have hlength := length_le_of_chain hnodup hcurrent horder
    omega
  | succ n ih =>
    have hlength := length_le_of_chain hnodup hcurrent horder
    obtain ⟨n', rfl⟩ : ∃ k, n' = k + 1 := ⟨n' - 1, by omega⟩
    have hkeep := hagree.keeps current m hm
    rw [superclassChainThen, superclassChain, bind_apply, bind_apply, hagree.same current m hm]
    cases hs : (ask' current m).1.superclass with
    | none => exact ⟨rfl, hkeep, hnodup⟩
    | some next =>
      by_cases hmem : next ∈ order
      · simp only [contains_iff_mem, hmem, if_true]
        exact ⟨trivial, hkeep, hnodup⟩
      · simp only [contains_iff_mem, hmem, if_false]
        have hreadable : current ∈ index.readable := by
          refine hagree.readable current m hm fun h => ?_
          simp [h] at hs
        have hnodup' : (order ++ [next]).Nodup := by
          rw [nodup_append_comm]
          exact nodup_cons.2 ⟨hmem, hnodup⟩
        have horder' : ∀ p ∈ order ++ [next], p ≠ next → p ∈ index.readable := by
          intro p hp hne
          have hp' : p ∈ order := by simpa [hne] using hp
          by_cases hpc : p = current
          · exact hpc ▸ hreadable
          · exact horder p hp' hpc
        have hnext : next ∈ order ++ [next] := by simp
        exact ih n' hkeep hnodup' hnext horder' (by simp; omega) (by simp; omega)

/-- One round of widening. A round that finds something new has visited a readable type. -/
lemma foldlM_addSupertypes_eq (layer : List String) (hm : I m) (hnodup : order.Nodup) :
    layer.foldlM (addSupertypes ask) order m = layer.foldlM (addSupertypes ask') order m ∧
      I (layer.foldlM (addSupertypes ask') order m).2 ∧
      (layer.foldlM (addSupertypes ask') order m).1.Nodup ∧
      order <+: (layer.foldlM (addSupertypes ask') order m).1 ∧
      ((layer.foldlM (addSupertypes ask') order m).1 ≠ order →
        ∃ p ∈ layer, p ∈ index.readable) := by
  induction layer generalizing order m with
  | nil => exact ⟨rfl, hm, hnodup, prefix_refl order, fun h => absurd rfl h⟩
  | cons q layer ih =>
    rw [foldlM_cons, foldlM_cons, bind_apply, bind_apply]
    have hsame : addSupertypes ask order q m = addSupertypes ask' order q m := by
      rw [addSupertypes, addSupertypes, bind_apply, bind_apply, hagree.same q m hm]
    rw [hsame]
    have hfound : addSupertypes ask' order q m =
        ((ask' q m).1.direct.foldl addNew order, (ask' q m).2) := rfl
    rw [hfound]
    obtain ⟨hnodup', hprefix⟩ := foldl_addNew (ask' q m).1.direct hnodup
    obtain ⟨heq, hI, hlast, hprefix', hvisit⟩ := ih (hagree.keeps q m hm) hnodup'
    refine ⟨heq, hI, hlast, hprefix.trans hprefix', fun hne => ?_⟩
    by_cases hq : (ask' q m).1 = {}
    · have hstay : (ask' q m).1.direct.foldl addNew order = order := by rw [hq]; rfl
      obtain ⟨p, hp, hread⟩ := hvisit (by rwa [hstay] at hne ⊢)
      exact ⟨p, mem_cons_of_mem q hp, hread⟩
    · exact ⟨q, mem_cons_self, hagree.readable q m hm hq⟩

lemma widenThen_eq (rest : List String → List String → Query (List String)) (n n' : Nat)
    (done layer : List String) (hm : I m) (hnodup : (done ++ layer).Nodup)
    (hn : index.readable.card + 1 ≤ n + done.countP (· ∈ index.readable))
    (hn' : index.readable.card + 1 ≤ n' + done.countP (· ∈ index.readable)) :
    widenThen ask rest n layer (done ++ layer) m = widen ask' n' layer (done ++ layer) m ∧
      I (widen ask' n' layer (done ++ layer) m).2 ∧
      (widen ask' n' layer (done ++ layer) m).1.Nodup := by
  induction n generalizing n' done layer m with
  | zero =>
    have hcount := countP_le_readable index hnodup.of_append_left
    omega
  | succ n ih =>
    have hcount := countP_le_readable index hnodup.of_append_left
    obtain ⟨n', rfl⟩ : ∃ k, n' = k + 1 := ⟨n' - 1, by omega⟩
    rw [widenThen, widen, bind_apply, bind_apply]
    obtain ⟨hsame, hI, hwider, ⟨next, hnext⟩, hvisit⟩ :=
      foldlM_addSupertypes_eq hagree layer hm hnodup
    rw [hsame, ← hnext, drop_left]
    rw [← hnext] at hwider hvisit
    cases next with
    | nil => exact ⟨rfl, hI, hwider⟩
    | cons q next =>
      obtain ⟨p, hp, hread⟩ := hvisit (by simp)
      have hlayer : 0 < layer.countP (· ∈ index.readable) :=
        countP_pos_iff.2 ⟨p, hp, by simpa using hread⟩
      exact ih n' (done ++ layer) (q :: next) hI hwider (by rw [countP_append]; omega)
        (by rw [countP_append]; omega)

lemma linearizationThen_eq (rest : Remainder) {rounds : Nat}
    (hrounds : index.readable.card + 1 ≤ rounds) (q : String) (hm : I m) :
    linearizationThen index rest rounds ask q m = linearization index ask' q m ∧
      I (linearization index ask' q m).2 ∧ (linearization index ask' q m).1.Nodup := by
  have hcard := index.card_readable_le
  obtain ⟨hchain, hI, hnodup⟩ := superclassChainThen_eq hagree rest.chain rounds
    (index.names.length + 2) hm (nodup_singleton q) (mem_singleton_self q) (by simp)
    (by simp; omega) (by simp; omega)
  rw [linearizationThen, linearization, bind_apply, bind_apply, hchain]
  obtain ⟨hwiden, hI', hnodup'⟩ := widenThen_eq hagree rest.widen rounds (index.names.length + 2)
    [] _ hI hnodup (by simp; omega) (by simp; omega)
  rw [nil_append] at hwiden hI' hnodup'
  rw [bind_apply, bind_apply, hwiden]
  refine ⟨rfl, hI', ?_⟩
  change (if index.contains objectName then addNew _ objectName else _ : List String).Nodup
  split
  · exact addNew_nodup hnodup' objectName
  · exact hnodup'

end

variable {active : List String} {n rounds : Nat}

/-- The memories that occur while the work on some types goes on. -/
def Memory.During (index : TypeIndex) (active : List String) (m : Memory) : Prop :=
  m.Sound index ∧ m.active = active

lemma Memory.During.consult (hm : m.During index active)
    (q : String) : (m.consult index q).During index active :=
  ⟨hm.1.consult q, (m.consult_active q).trans hm.2⟩

lemma Routine.agree {α : Type} {f : Ask → Lineage → Query α} (h : Routine index f) {ask' : Ask}
    (hagree : Agree index (Memory.During index active) ask ask') (rest : Remainder)
    (hrounds : index.readable.card + 1 ≤ rounds) (hm : m.During index active) :
    f ask (linearizationThen index rest rounds ask) m = f ask' (linearization index ask') m ∧
      (f ask' (linearization index ask') m).2.During index active := by
  induction h generalizing m with
  | pure a => exact ⟨rfl, hm⟩
  | look q => exact ⟨rfl, hm.consult q⟩
  | ask q => exact ⟨hagree.same q m hm, hagree.keeps q m hm⟩
  | lineage q =>
    obtain ⟨heq, hduring, _⟩ := linearizationThen_eq hagree rest hrounds q hm
    exact ⟨heq, hduring⟩
  | bind _ _ ihx ihf =>
    obtain ⟨hx, hduring⟩ := ihx hm
    simp only [bind_apply, hx]
    exact ihf _ hduring

lemma supertypesBy_congr {lineage' : Lineage}
    (h : q ∉ m.active →
      findSupertypes index lineage q (m.enter q) = findSupertypes index lineage' q (m.enter q)) :
    supertypesBy index lineage q m = supertypesBy index lineage' q m := by
  cases hk : m.known.lookup q with
  | some s => rw [supertypesBy_of_known hk, supertypesBy_of_known hk]
  | none =>
    by_cases ha : q ∈ m.active
    · rw [supertypesBy_of_active hk ha, supertypesBy_of_active hk ha]
    · rw [supertypesBy_of_new hk ha, supertypesBy_of_new hk ha, h ha]

lemma supertypesWithin_during (n : Nat) (q : String)
    (hm : m.During index active) : (supertypesWithin index n q m).2.During index active :=
  ⟨(supertypesWithin_sound n q hm.1).1, (supertypesWithin_grows n q m).active.trans hm.2⟩

/-- While the types of `active` are worked on, `n` more questions inside each other are enough. A
question that asks further has made a readable type active. So there are at most as many of these as
readable types, and one more that does not ask. -/
structure Room (index : TypeIndex) (active : List String) (n : Nat) : Prop where
  nodup : active.Nodup
  readable : ∀ p ∈ active, p ∈ index.readable
  enough : index.readable.card + 1 ≤ n + active.length

lemma Room.idle (h : index.readable.card + 1 ≤ n) : Room index [] n where
  nodup := nodup_nil
  readable := forall_mem_nil _
  enough := h

lemma Room.ofNames (index : TypeIndex) : Room index [] (index.names.length + 1) :=
  .idle (Nat.succ_le_succ index.card_readable_le)

lemma Room.exists_succ (h : Room index active n) : ∃ k, n = k + 1 := by
  have hlength := length_le_readable index h.nodup h.readable
  have henough := h.enough
  exact ⟨n - 1, by omega⟩

lemma Room.enter (h : Room index active (n + 1)) (hread : q ∈ index.readable) (hq : q ∉ active) :
    Room index (q :: active) n where
  nodup := nodup_cons.2 ⟨hq, h.nodup⟩
  readable := forall_mem_cons.2 ⟨hread, h.readable⟩
  enough := by
    have henough := h.enough
    rw [length_cons]
    omega

lemma supertypesThen_agree (rest : Remainder) (hrounds : index.readable.card + 1 ≤ rounds)
    {n' : Nat} (hn : Room index active n) (hn' : Room index active n') :
    Agree index (Memory.During index active) (supertypesThen index rest rounds n)
      (supertypesWithin index n') := by
  induction n generalizing n' active with
  | zero =>
    obtain ⟨_, h⟩ := hn.exists_succ
    omega
  | succ n ih =>
    obtain ⟨n', rfl⟩ := hn'.exists_succ
    refine ⟨fun q m hm => supertypesBy_congr fun hq => ?_,
      fun q m hm => supertypesWithin_during (n' + 1) q hm,
      fun q m hm => (supertypesWithin_sound (n' + 1) q hm.1).2⟩
    rw [hm.2] at hq
    by_cases hread : q ∈ index.readable
    · have hagree := ih (hn.enter hread hq) (hn'.enter hread hq)
      have henter : (m.enter q).During index (q :: active) := ⟨hm.1, congrArg (q :: ·) hm.2⟩
      exact (((Program.findSupertypes q).routine index).agree hagree rest hrounds henter).1
    · have hinfo : index.info q = none := by simpa using hread
      rw [findSupertypes_of_unreadable _ hinfo, findSupertypes_of_unreadable _ hinfo]

lemma during_after (index : TypeIndex) (history : List Question) :
    (after index history).During index [] :=
  ⟨sound_after history, after_active index history⟩

/-- Every question, asked at any time of a run, comes to an end: what follows one round more than
there are readable types, in a loop or in the nesting of questions, has no influence on the answer
or on the memory. The loops that list supertypes add each name once. -/
theorem putTo_of_remainder (index : TypeIndex) (rest : Remainder) (history : List Question)
    (q : Question) :
    let rounds := index.readable.card + 1
    let ask := supertypesThen index rest rounds rounds
    q.putTo index ask (linearizationThen index rest rounds ask) (after index history) =
        q.pose index (after index history) ∧
      ∀ name, (index.lineage name (after index history)).1.Nodup := by
  intro rounds ask
  have hagree := supertypesThen_agree rest (Nat.le_refl rounds) (.idle (Nat.le_refl rounds))
    (.ofNames index)
  have hduring := during_after index history
  refine ⟨((q.routine index).agree hagree rest (Nat.le_refl rounds) hduring).1, fun name => ?_⟩
  exact (linearizationThen_eq hagree rest (Nat.le_refl rounds) name hduring).2.2

end Xref.Resolve
