import Xref.Proofs.Resolve.Termination

/-!
# Similar indexes

Two indexes are similar if they know the same types and say the same of them, up to where a type was
found. Similar indexes answer every question alike: bounds for loops are never reached, nobody asks
where a type was found, and which types were read for the first time is noted and not used.
-/
namespace Xref.Resolve

open Java Text

/-- Descriptions that differ in nothing but where the type was found. -/
inductive SameButOrigin : Option TypeInfo → Option TypeInfo → Prop where
  | none : SameButOrigin none none
  | some (t : TypeInfo) (origin : Origin) :
    SameButOrigin (some t) (some { t with origin := origin })

lemma SameButOrigin.refl (info : Option TypeInfo) : SameButOrigin info info := by
  cases info with
  | none => exact .none
  | some t => exact .some t t.origin

lemma SameButOrigin.isSome_eq {info info' : Option TypeInfo} (h : SameButOrigin info info') :
    info'.isSome = info.isSome := by
  cases h <;> rfl

structure TypeIndex.Similar (index index' : TypeIndex) : Prop where
  info : ∀ q, SameButOrigin (index.info q) (index'.info q)
  contains : index'.contains = index.contains
  packageExists : index'.packageExists = index.packageExists

lemma TypeIndex.Similar.refl (index : TypeIndex) : index.Similar index :=
  ⟨fun _ => .refl _, rfl, rfl⟩

lemma TypeIndex.Similar.overlay {base base' : TypeIndex} (h : base.Similar base')
    (types : List TypeInfo) : (TypeIndex.overlay types base).Similar (.overlay types base') where
  info q := by
    change SameButOrigin (((ofTypes types).info q).or (base.info q))
      (((ofTypes types).info q).or (base'.info q))
    cases (ofTypes types).info q with
    | none => simpa using h.info q
    | some t => exact .refl _
  contains := by simp only [TypeIndex.overlay, h.contains]
  packageExists := by simp only [TypeIndex.overlay, h.packageExists]

structure Memory.Same (m m' : Memory) : Prop where
  known : m'.known = m.known
  active : m'.active = m.active

lemma Memory.Same.refl (m : Memory) : m.Same m := ⟨rfl, rfl⟩

variable {m' : Memory}

lemma Memory.Same.consult {m : Memory} (h : m.Same m') (index index' : TypeIndex) (q : String) :
    (m.consult index q).Same (m'.consult index' q) :=
  ⟨by rw [consult_known, consult_known, h.known], by rw [consult_active, consult_active, h.active]⟩

/-- From memories that agree, both questions have the same answer and leave memories that agree. -/
def Query.Alike {α : Type} (x y : Query α) : Prop :=
  ∀ m m', m.Same m' → (x m).1 = (y m').1 ∧ (x m).2.Same (y m').2

variable {α β : Type}

namespace Query.Alike

lemma pure (a : α) : Alike (pure a) (pure a) := fun _ _ h => ⟨rfl, h⟩

lemma bind {x y : Query α} {f g : α → Query β} (hx : Alike x y) (hf : ∀ a, Alike (f a) (g a)) :
    Alike (x >>= f) (y >>= g) := by
  intro m m' h
  obtain ⟨hanswer, hsame⟩ := hx m m' h
  rw [bind_apply, bind_apply, ← hanswer]
  exact hf _ _ _ hsame

lemma ite (c : Prop) [Decidable c] {x x' y y' : Query α} (hx : Alike x x') (hy : Alike y y') :
    Alike (if c then x else y) (if c then x' else y') := by
  by_cases h : c
  · rwa [if_pos h, if_pos h]
  · rwa [if_neg h, if_neg h]

lemma foldlM {f g : β → α → Query β} (hf : ∀ b a, Alike (f b a) (g b a)) (l : List α) (b : β) :
    Alike (l.foldlM f b) (l.foldlM g b) := by
  induction l generalizing b with
  | nil => exact .pure b
  | cons a l ih =>
    rw [List.foldlM_cons, List.foldlM_cons]
    exact .bind (hf b a) ih

end Query.Alike

section

variable {index index' : TypeIndex} (h : index.Similar index') {lineage' : Lineage}
include h

lemma Program.alike {f : Course α} (hf : Program f) {ask ask' : Ask}
    (hask : ∀ q, Query.Alike (ask q) (ask' q)) {lineage : Lineage}
    (hl : ∀ q, Query.Alike (lineage q) (lineage' q)) :
    Query.Alike (f index ask lineage) (f index' ask' lineage') := by
  induction hf with
  | answer hg =>
    dsimp only
    rw [hg index index' h.contains]
    exact .pure _
  | look q _ horigin ih =>
    intro m m' hsame
    simp only [bind_apply, info_apply]
    have hsame' := hsame.consult index index' q
    have hinfo := h.info q
    generalize index.info q = info, index'.info q = info' at hinfo
    cases hinfo with
    | none => exact ih none _ _ hsame'
    | some t origin =>
      rw [horigin t origin]
      exact ih (some t) _ _ hsame'
  | ask q => exact hask q
  | lineage q => exact hl q
  | bind _ _ ihx ihf => exact .bind ihx ihf

lemma supertypesBy_alike {lineage : Lineage} (hl : ∀ q, Query.Alike (lineage q) (lineage' q))
    (q : String) : Query.Alike (supertypesBy index lineage q) (supertypesBy index' lineage' q) := by
  intro m m' hsame
  rw [supertypesBy_apply, supertypesBy_apply, hsame.known, hsame.active]
  cases m.known.lookup q with
  | some s => exact ⟨rfl, hsame⟩
  | none =>
    dsimp only
    split
    · exact ⟨rfl, hsame⟩
    · have henter : (m.enter q).Same (m'.enter q) := ⟨hsame.known, congrArg (q :: ·) hsame.active⟩
      have hfind := (Program.findSupertypes q).alike h (fun _ => Query.Alike.pure {}) hl
      obtain ⟨hanswer, hdone⟩ := hfind _ _ henter
      exact ⟨hanswer, by simp only [Memory.leave, ← hanswer, hdone.known],
        congrArg (List.erase · q) hdone.active⟩

end

/-- Nothing more happens where rounds are used up. -/
def Remainder.idle : Remainder where
  supertypes _ := pure {}
  chain _ order := pure order
  widen _ order := pure order

section

variable {ask ask' : Ask} (hask : ∀ q, Query.Alike (ask q) (ask' q))
include hask

lemma superclassChainThen_alike (n : Nat) (current : String) (order : List String) :
    Query.Alike (superclassChainThen ask Remainder.idle.chain n current order)
      (superclassChainThen ask' Remainder.idle.chain n current order) := by
  induction n generalizing current order with
  | zero => exact .pure order
  | succ n ih =>
    refine .bind (hask current) fun s => ?_
    cases s.superclass with
    | none => exact .pure order
    | some next => exact .ite _ (.pure order) (ih next (order ++ [next]))

lemma widenThen_alike (n : Nat) (layer order : List String) :
    Query.Alike (widenThen ask Remainder.idle.widen n layer order)
      (widenThen ask' Remainder.idle.widen n layer order) := by
  induction n generalizing layer order with
  | zero => exact .pure order
  | succ n ih =>
    refine .bind (.foldlM (fun found q => .bind (hask q) fun s => .pure _) layer order)
      fun wider => ?_
    exact .ite _ (.pure wider) (ih (wider.drop order.length) wider)

lemma linearizationThen_alike {index index' : TypeIndex} (h : index.Similar index')
    (rounds : Nat) (q : String) :
    Query.Alike (linearizationThen index .idle rounds ask q)
      (linearizationThen index' .idle rounds ask' q) := by
  simp only [linearizationThen, h.contains]
  exact .bind (superclassChainThen_alike hask rounds q [q]) fun chain =>
    .bind (widenThen_alike hask rounds chain chain) fun _ => .pure _

end

variable {index index' : TypeIndex} {m : Memory}

lemma supertypesThen_alike (h : index.Similar index') (rounds n : Nat) (q : String) :
    Query.Alike (supertypesThen index .idle rounds n q)
      (supertypesThen index' .idle rounds n q) := by
  induction n generalizing q with
  | zero => exact .pure ({} : Supertypes)
  | succ n ih => exact supertypesBy_alike h (linearizationThen_alike ih h rounds) q

lemma TypeIndex.Similar.readable_eq (h : index.Similar index') :
    index'.readable = index.readable := by
  ext q
  rw [mem_readable, mem_readable, (h.info q).isSome_eq]

lemma Memory.During.of_same (h : index.Similar index') {active : List String} (hsame : m.Same m')
    (hm : m.During index active) : m'.During index' active := by
  refine ⟨fun q s hq hs => ?_, hsame.active.trans hm.2⟩
  rw [h.readable_eq]
  exact hm.1 q s (hsame.known ▸ hq) hs

/-- Loops and nested questions that go on for one round more than there are readable types agree
with those that the resolver has. -/
lemma Routine.run_eq {f : Ask → Lineage → Query α} (h : Routine index f) (rest : Remainder)
    (hm : m.During index []) : let rounds := index.readable.card + 1
    let ask := supertypesThen index rest rounds rounds
    f ask (linearizationThen index rest rounds ask) m = f (supertypes index) index.lineage m ∧
      (f (supertypes index) index.lineage m).2.During index [] := by
  intro rounds ask
  exact h.agree (supertypesThen_agree rest (Nat.le_refl rounds) (.idle (Nat.le_refl rounds))
    (.ofNames index)) rest (Nat.le_refl rounds) hm

/-- Answers that say the same. A description may come from elsewhere. -/
def Question.Agrees : (q : Question) → q.Answer → q.Answer → Prop
  | .description _ => SameButOrigin
  | _ => Eq

lemma Question.agrees_refl (q : Question) (a : q.Answer) : q.Agrees a a := by
  cases q with
  | description => exact .refl a
  | _ => rfl

lemma Question.putTo_alike (h : index.Similar index') {ask ask' : Ask}
    (hask : ∀ q, Query.Alike (ask q) (ask' q)) {lineage lineage' : Lineage}
    (hl : ∀ q, Query.Alike (lineage q) (lineage' q)) (q : Question) (hsame : m.Same m') :
    q.Agrees (q.putTo index ask lineage m).1 (q.putTo index' ask' lineage' m').1 ∧
      (q.putTo index ask lineage m).2.Same (q.putTo index' ask' lineage' m').2 := by
  rcases q.program_or_description with hprogram | ⟨name, rfl⟩
  · obtain ⟨hanswer, hafter⟩ := hprogram.alike h hask hl m m' hsame
    refine ⟨?_, hafter⟩
    rw [show (q.putTo index' ask' lineage' m').1 = _ from hanswer.symm]
    exact q.agrees_refl _
  · exact ⟨h.info name, hsame.consult index index' name⟩

/-- A way in which two resolvers correspond, by their indexes and memories. All questions have
answers that agree, and leave resolvers that correspond. -/
structure Exchange where
  holds : TypeIndex → TypeIndex → Memory → Memory → Prop
  pose : ∀ (q : Question) {index index' : TypeIndex} {m m' : Memory}, holds index index' m m' →
    q.Agrees (q.pose index m).1 (q.pose index' m').1 ∧
      holds index index' (q.pose index m).2 (q.pose index' m').2

/-- Similar indexes, with memories that are the same. -/
def Exchange.similar : Exchange where
  holds index index' m m' := index.Similar index' ∧ m.During index [] ∧ m.Same m'
  pose q := by
    rintro index index' m m' ⟨h, hm, hsame⟩
    -- both runs are bounded by the number of readable types, which is the same for both indexes
    obtain ⟨hrun, hduring⟩ := (q.routine index).run_eq .idle hm
    obtain ⟨hrun', _⟩ := (q.routine index').run_eq .idle (hm.of_same h hsame)
    rw [h.readable_eq] at hrun'
    have hask := supertypesThen_alike h (index.readable.card + 1) (index.readable.card + 1)
    obtain ⟨hanswer, hafter⟩ :=
      q.putTo_alike h hask (linearizationThen_alike hask h (index.readable.card + 1)) hsame
    rw [hrun, hrun'] at hanswer hafter
    exact ⟨hanswer, h, hduring, hafter⟩

/-- Resolvers that correspond have answers to the question that `R` relates, and correspond again.
-/
def Inquiry (ε : Exchange) {α : Type} (R : α → α → Prop) (question : TypeIndex → Query α) : Prop :=
  ∀ (index index' : TypeIndex) (m m' : Memory), ε.holds index index' m m' →
    R (question index m).1 (question index' m').1 ∧
      ε.holds index index' (question index m).2 (question index' m').2

namespace Inquiry

variable {ε : Exchange}

lemma of_question (q : Question) : Inquiry ε q.Agrees q.pose := fun _ _ _ _ h => ε.pose q h

lemma pure (a : α) : Inquiry ε Eq fun _ => (pure a : Query α) := fun _ _ _ _ h => ⟨rfl, h⟩

lemma bind {x : TypeIndex → Query α} {f : α → TypeIndex → Query β} (hx : Inquiry ε Eq x)
    (hf : ∀ a, Inquiry ε Eq (f a)) : Inquiry ε Eq fun index => x index >>= fun a => f a index := by
  intro index index' m m' h
  obtain ⟨hanswer, hafter⟩ := hx index index' m m' h
  simp only [bind_apply, ← hanswer]
  exact hf _ index index' _ _ hafter

end Inquiry

/-- A computation that asks questions whose answers do not tell where a type was found. -/
inductive Poses : {α : Type} → (TypeIndex → Query α) → Prop where
  | pure {α : Type} (a : α) : Poses fun _ => pure a
  | pose (q : Question) (h : q.Agrees = Eq) : Poses q.pose
  | bind {α β : Type} {x : TypeIndex → Query α} {f : α → TypeIndex → Query β} (hx : Poses x)
      (hf : ∀ a, Poses (f a)) : Poses fun index => x index >>= fun a => f a index

namespace Poses

variable {x y : TypeIndex → Query α}

lemma inquiry (h : Poses x) (ε : Exchange) : Inquiry ε Eq x := by
  induction h with
  | pure a => exact .pure a
  | pose q h => exact h ▸ .of_question q
  | bind _ _ ihx ihf => exact .bind ihx ihf

lemma posed (h : Poses x) (index : TypeIndex) : Posed index (x index) := by
  induction h with
  | pure a => exact .pure a
  | pose q => exact (q.routine index).posed
  | bind _ _ ihx ihf => exact .bind ihx ihf

lemma stable (h : Poses x) (index : TypeIndex) : Stable (x index) := (h.posed index).stable

lemma ite (c : Prop) [Decidable c] (hx : Poses x) (hy : Poses y) :
    Poses fun index => if c then x index else y index := by
  by_cases h : c
  · simpa only [h, if_true] using hx
  · simpa only [h, if_false] using hy

lemma foldlM {f : β → α → TypeIndex → Query β} (hf : ∀ b a, Poses (f b a)) (l : List α) (b : β) :
    Poses fun index => l.foldlM (fun b a => f b a index) b := by
  induction l generalizing b with
  | nil => exact .pure b
  | cons a l ih =>
    simp only [List.foldlM_cons]
    exact .bind (hf b a) ih

end Poses

end Xref.Resolve
