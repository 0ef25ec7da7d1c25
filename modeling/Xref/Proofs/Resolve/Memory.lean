import Xref.Proofs.Resolve.Dialogue

/-!
# What questions do to memory

A question only ever adds to memory, and decides nothing about active types (`Dialogue.grows`).
Asked while no type is active, it leaves behind all that it has learned: asked again at any later
such time, it has the same answer and changes nothing more (`Posed.stable`).
-/
open List

namespace Xref.Resolve

open Java

variable {index : TypeIndex} {ask : Ask} {lineage : Lineage}

namespace Memory

variable {q : String}

/-- Everything that `m` remembers is remembered by `m'` in the same way. -/
structure Within (m m' : Memory) : Prop where
  known : ∀ q s, m.known.lookup q = some s → m'.known.lookup q = some s
  consulted : ∀ q ∈ m.consulted, q ∈ m'.consulted

/-- What `m` can become while the types that are active in it stay active. -/
structure Grows (m m' : Memory) : Prop extends Within m m' where
  active : m'.active = m.active
  pending : ∀ q ∈ m.active, m'.known.lookup q = m.known.lookup q

lemma Within.trans {m₁ m₂ m₃ : Memory} (h₁ : m₁.Within m₂) (h₂ : m₂.Within m₃) : m₁.Within m₃ where
  known q s h := h₂.known q s (h₁.known q s h)
  consulted q h := h₂.consulted q (h₁.consulted q h)

lemma Grows.trans {m₁ m₂ m₃ : Memory} (h₁ : m₁.Grows m₂) (h₂ : m₂.Grows m₃) : m₁.Grows m₃ where
  toWithin := h₁.toWithin.trans h₂.toWithin
  active := h₂.active.trans h₁.active
  pending q hq := (h₂.pending q (h₁.active ▸ hq)).trans (h₁.pending q hq)

section

variable (m : Memory)

lemma Grows.refl : m.Grows m where
  known _ _ h := h
  consulted _ h := h
  active := rfl
  pending _ _ := rfl

@[simp] lemma consult_known (q : String) : (m.consult index q).known = m.known := by
  unfold consult
  split <;> rfl

@[simp] lemma consult_active (q : String) : (m.consult index q).active = m.active := by
  unfold consult
  split <;> rfl

lemma mem_consult_of_deferred (h : index.deferred q) : q ∈ (m.consult index q).consulted := by
  by_cases hq : q ∈ m.consulted <;> simp [consult, h, hq]

lemma grows_consult (q : String) : m.Grows (m.consult index q) where
  known _ _ h := by rwa [consult_known]
  consulted p hp := by
    unfold consult
    split
    · exact mem_cons_of_mem q hp
    · exact hp
  active := consult_active m q
  pending _ _ := by rw [consult_known]

lemma lookup_leave (q p : String) (s : Supertypes) :
    (m.leave q s).known.lookup p = if p = q then some s else m.known.lookup p := by
  by_cases h : p = q
  · simp [leave, h]
  · have hb : (p == q) = false := beq_false_of_ne h
    simp [leave, lookup_cons, h, hb]

end

lemma consult_of_within {m m' : Memory} (h : (m.consult index q).Within m') :
    m'.consult index q = m' := by
  by_cases hq : index.deferred q
  · have hmem := h.consulted q (mem_consult_of_deferred m hq)
    simp [consult, hmem]
  · simp [consult, hq]

lemma grows_leave {m m' : Memory} (hknown : m.known.lookup q = none)
    (hactive : q ∉ m.active) (h : (m.enter q).Grows m') (s : Supertypes) :
    m.Grows (m'.leave q s) where
  known p t hp := by
    have hne : p ≠ q := by
      rintro rfl
      simp [hknown] at hp
    rw [lookup_leave, if_neg hne]
    exact h.known p t hp
  consulted := h.consulted
  active := by
    have herase : m'.active = q :: m.active := h.active
    simp [leave, herase]
  pending p hp := by
    have hne : p ≠ q := fun e => hactive (e ▸ hp)
    rw [lookup_leave, if_neg hne]
    exact h.pending p (mem_cons_of_mem q hp)

end Memory

variable {α : Type} {q : String} {m : Memory} {f : Ask → Query α}

lemma bind_apply {β : Type} (x : Query α) (f : α → Query β) (m : Memory) :
    (x >>= f) m = f (x m).1 (x m).2 := rfl

lemma info_apply (q : String) (m : Memory) :
    Query.info index q m = (index.info q, m.consult index q) := rfl

/-- A known type is answered from memory, an active one has no supertypes yet, and any other is
worked on. -/
lemma supertypesBy_apply (q : String) (m : Memory) : supertypesBy index lineage q m =
    match m.known.lookup q with
    | some s => (s, m)
    | none =>
      if q ∈ m.active then ({}, m) else let r := findSupertypes index lineage q (m.enter q)
          (r.1, r.2.leave q r.1) := by
  change (match m.known.lookup q with
    | some s => (pure s : Query Supertypes)
    | none =>
      if m.active.contains q then pure {}
      else do
        modify fun (m : Memory) => m.enter q
        let result ← findSupertypes index lineage q
        modify fun (m : Memory) => m.leave q result
        return result) m = _
  cases m.known.lookup q with
  | some s => rfl
  | none =>
    by_cases ha : q ∈ m.active
    · simp only [ha, contains_iff_mem, if_true]
      rfl
    · simp only [ha, contains_iff_mem, if_false]
      rfl

lemma supertypesBy_of_known {s : Supertypes}
    (h : m.known.lookup q = some s) : supertypesBy index lineage q m = (s, m) := by
  rw [supertypesBy_apply, h]

lemma supertypesBy_of_active (h : m.known.lookup q = none)
    (ha : q ∈ m.active) : supertypesBy index lineage q m = ({}, m) := by
  rw [supertypesBy_apply, h]
  exact if_pos ha

lemma supertypesBy_of_new (h : m.known.lookup q = none) (ha : q ∉ m.active) :
    supertypesBy index lineage q m = ((findSupertypes index lineage q (m.enter q)).1,
        (findSupertypes index lineage q (m.enter q)).2.leave q
          (findSupertypes index lineage q (m.enter q)).1) := by
  rw [supertypesBy_apply, h]
  exact if_neg ha

lemma lookup_supertypesBy (ha : q ∉ m.active) : (supertypesBy index lineage q m).2.known.lookup q =
    some (supertypesBy index lineage q m).1 := by
  cases hk : m.known.lookup q with
  | some s => rw [supertypesBy_of_known hk, hk]
  | none => rw [supertypesBy_of_new hk ha, Memory.lookup_leave, if_pos rfl]

/-- What is kept by each question for supertypes and for a description is kept by a dialogue. -/
lemma Dialogue.keeps (h : Dialogue index f) {P : Memory → Prop} (hask : ∀ q m, P m → P (ask q m).2)
    (hlook : ∀ q m, P m → P (m.consult index q)) (hm : P m) : P (f ask m).2 := by
  induction h generalizing m with
  | pure a => exact hm
  | look q => exact hlook q m hm
  | ask q => exact hask q m hm
  | bind _ _ ihx ihf => exact ihf _ (ihx hm)

lemma Dialogue.grows (h : Dialogue index f) (hask : ∀ q m, Memory.Grows m (ask q m).2)
    (m : Memory) : m.Grows (f ask m).2 :=
  h.keeps (fun q _ hm => hm.trans (hask q _)) (fun q _ hm => hm.trans (Memory.grows_consult _ q))
    (.refl m)

lemma supertypesBy_grows (hask : ∀ q m, Memory.Grows m (ask q m).2) (q : String) (m : Memory) :
    m.Grows (supertypesBy index (linearization index ask) q m).2 := by
  cases hk : m.known.lookup q with
  | some s =>
    rw [supertypesBy_of_known hk]
    exact .refl m
  | none =>
    by_cases ha : q ∈ m.active
    · rw [supertypesBy_of_active hk ha]
      exact .refl m
    · rw [supertypesBy_of_new hk ha]
      exact Memory.grows_leave hk ha ((Program.findSupertypes q).dialogue.grows hask _) _

lemma supertypesWithin_grows (n : Nat) (q : String) (m : Memory) :
    m.Grows (supertypesWithin index n q m).2 := by
  induction n generalizing q m with
  | zero => exact .refl m
  | succ n ih => exact supertypesBy_grows ih q m

/-- The question `x`, asked while nothing is active, leaves behind all that it has learned. Asked
again at any later such time it has the same answer and learns nothing more. -/
def Stable {α : Type} (x : Query α) : Prop :=
  ∀ m, m.active = [] →
    m.Grows (x m).2 ∧ ∀ m', m'.active = [] → (x m).2.Within m' → x m' = ((x m).1, m')

namespace Stable

lemma pure (a : α) : Stable (pure a : Query α) := by
  intro m _
  exact ⟨.refl m, fun m' _ _ => rfl⟩

variable {β : Type}

lemma bind {x : Query α} {f : α → Query β} (hx : Stable x) (hf : ∀ a, Stable (f a)) :
    Stable (x >>= f) := by
  intro m hm
  obtain ⟨hgrow, hagain⟩ := hx m hm
  obtain ⟨hgrow', hagain'⟩ := hf (x m).1 (x m).2 (hgrow.active.trans hm)
  refine ⟨hgrow.trans hgrow', fun m' hm' hwithin => ?_⟩
  -- the first part has already left its traces in the memory that the second part extends
  have hfirst : x m' = ((x m).1, m') := hagain m' hm' (hgrow'.toWithin.trans hwithin)
  calc (x >>= f) m' = f (x m').1 (x m').2 := bind_apply x f m'
    _ = f (x m).1 m' := by rw [hfirst]
    _ = ((f (x m).1 (x m).2).1, m') := hagain' m' hm' hwithin

lemma ite (c : Prop) [Decidable c] {x y : Query α} (hx : Stable x) (hy : Stable y) :
    Stable (if c then x else y) := by
  by_cases h : c
  · rwa [if_pos h]
  · rwa [if_neg h]

lemma foldlM {f : β → α → Query β} (hf : ∀ b a, Stable (f b a)) (l : List α) (b : β) :
    Stable (l.foldlM f b) := by
  induction l generalizing b with
  | nil => exact .pure b
  | cons a l ih =>
    rw [foldlM_cons]
    exact .bind (hf b a) ih

lemma look (q : String) : Stable (Query.info index q) := by
  intro m _
  refine ⟨m.grows_consult q, fun m' _ hwithin => ?_⟩
  rw [info_apply, Memory.consult_of_within hwithin]
  rfl

lemma supertypes (q : String) : Stable (supertypes index q) := by
  intro m hm
  refine ⟨supertypesWithin_grows _ q m, fun m' _ hwithin => ?_⟩
  have ha : q ∉ m.active := by simp [hm]
  exact supertypesBy_of_known (hwithin.known q _ (lookup_supertypesBy ha))

end Stable

/-- A question that a resolver can be asked: it looks up descriptions and asks for direct
supertypes. -/
inductive Posed (index : TypeIndex) : {α : Type} → Query α → Prop where
  | pure {α : Type} (a : α) : Posed index (pure a)
  | look (q : String) : Posed index (Query.info index q)
  | supertypes (q : String) : Posed index (supertypes index q)
  | bind {α β : Type} {x : Query α} {f : α → Query β} (hx : Posed index x)
      (hf : ∀ a, Posed index (f a)) : Posed index (x >>= f)

lemma Posed.stable {x : Query α} (h : Posed index x) : Stable x := by
  induction h with
  | pure a => exact .pure a
  | look q => exact .look q
  | supertypes q => exact .supertypes q
  | bind _ _ ihx ihf => exact .bind ihx ihf

lemma Dialogue.posed (h : Dialogue index f) : Posed index (f (supertypes index)) := by
  induction h with
  | pure a => exact .pure a
  | ask q => exact .supertypes q
  | look q => exact .look q
  | bind _ _ ihx ihf => exact .bind ihx ihf

lemma Routine.posed {f : Ask → Lineage → Query α} (h : Routine index f) :
    Posed index (f (supertypes index) index.lineage) :=
  h.dialogue.posed

lemma Program.posed {f : Course α} (h : Program f) :
    Posed index (f index (supertypes index) index.lineage) :=
  (h.routine index).posed

lemma Program.stable {f : Course α} (h : Program f) :
    Stable (f index (supertypes index) index.lineage) :=
  h.posed.stable

end Xref.Resolve
