import Xref.Proofs.Reference.Asking
import Xref.Proofs.Syntax.Twin

/-!
# Walks in step

Two walks are in step if, from places and states that correspond to each other, they find the same
and end in states that correspond again. Corresponding places have similar indexes, the same context
and twins around them. The records of corresponding states agree in everything but where they stand,
and in that too if nothing has moved.
-/
open List

namespace Xref.Reference

open Declaration Java Resolve Syntax Text Walk

/-- Twins, whatever they are part of. -/
def IsTwin (π : Passage) (t t' : Tree) : Prop := ∃ stand, Tree.Twin π stand t t'

structure Record.Twin (π : Passage) (r r' : Record) : Prop where
  name : r'.name = r.name
  status : r'.status = r.status
  location : r'.location = r.location
  values : r'.values = r.values
  span : π.isFixed → r'.span = r.span
  snippet : π.isFixed → r'.snippet = r.snippet

/-- Settings in which twins mean the same. -/
structure Setting.Twin (π : Passage) (st st' : Setting) : Prop where
  index : st.index.Similar st'.index
  source : st.source = π.source
  source' : st'.source = π.source'
  lines : π.isFixed → st'.lines = st.lines
  display : ∀ name, st'.declarations.display name = st.declarations.display name
  names : ∀ start,
    st'.declarations.names.lookup (π.start start) = st.declarations.names.lookup start
  context : st'.context = st.context
  frames : st'.frames = st.frames

structure Place.Twin (π : Passage) (p p' : Place) : Prop extends
    Setting.Twin π p.toSetting p'.toSetting where
  never : p.remembering = .never
  never' : p'.remembering = .never
  path : List.Forall₂ (IsTwin π) p.path p'.path

/-- How two walks correspond: where they are, and which resolvers they ask. -/
structure Pairing extends Passage, Exchange

instance : Coe Pairing Passage := ⟨Pairing.toPassage⟩

/-- States that correspond, where the resolvers are asked about these indexes. -/
structure WalkState.Twin (π : Pairing) (index index' : TypeIndex) (s s' : WalkState) : Prop where
  memory : π.holds index index' s.memory s'.memory
  scopes : s'.scopes = s.scopes
  records : List.Forall₂ (Record.Twin π) s.records s'.records

/-- From what corresponds the walks come to results that `R` relates, and to states that
correspond. -/
def InStep (π : Pairing) {α β : Type} (R : α → β → Prop) (x : Walk α) (y : Walk β) : Prop :=
  ∀ (p p' : Place) (s s' : WalkState), p.Twin π p' → s.Twin π p.index p'.index s' →
    R (x p s).1 (y p' s').1 ∧ (x p s).2.Twin π p.index p'.index (y p' s').2

lemma IsTwin.range {π : Passage} {t t' : Tree} (h : IsTwin π t t') (hfixed : π.isFixed) :
    t'.start = t.start ∧ t'.stop = t.stop := by
  obtain ⟨_, h⟩ := h
  exact h.range hfixed

namespace InStep

variable {π : Pairing} {α β γ δ : Type} {R : α → β → Prop} {S : γ → δ → Prop} {x : Walk α}
  {y : Walk β} {f : γ → Walk α} {l : List γ} {l' : List δ}

lemma pure {a : α} {b : β} (h : R a b) : InStep π R (pure a) (pure b) := fun _ _ _ _ _ hs => ⟨h, hs⟩

lemma done (a : α) : InStep π Eq (Pure.pure a : Walk α) (Pure.pure a) := .pure rfl

lemma bind {f : α → Walk γ} {g : β → Walk δ} (hx : InStep π R x y)
    (hf : ∀ a b, R a b → InStep π S (f a) (g b)) : InStep π S (x >>= f) (y >>= g) := by
  intro p p' s s' hp hs
  obtain ⟨hab, hs₁⟩ := hx p p' s s' hp hs
  rw [walk_bind_apply, walk_bind_apply]
  exact hf _ _ hab p p' _ _ hp hs₁

lemma andThen {y : Walk α} {f : α → Walk γ} {g : α → Walk δ} (hx : InStep π Eq x y)
    (hf : ∀ a, InStep π S (f a) (g a)) : InStep π S (x >>= f) (y >>= g) := by
  refine .bind hx fun a b hab => ?_
  subst hab
  exact hf a

lemma mono {R' : α → β → Prop} (hx : InStep π R x y) (hle : ∀ a b, R a b → R' a b) :
    InStep π R' x y := by
  intro p p' s s' hp hs
  obtain ⟨hab, hs₁⟩ := hx p p' s s' hp hs
  exact ⟨hle _ _ hab, hs₁⟩

lemma iteOf {c c' : Prop} [Decidable c] [Decidable c'] (hc : c' ↔ c) {x' : Walk α} {y' : Walk β}
    (hx : c → InStep π R x y) (hx' : ¬c → InStep π R x' y') :
    InStep π R (if c then x else x') (if c' then y else y') := by
  by_cases h : c
  · rw [if_pos h, if_pos (hc.mpr h)]
    exact hx h
  · rw [if_neg h, if_neg fun h' => h (hc.mp h')]
    exact hx' h

lemma ite {c c' : Prop} [Decidable c] [Decidable c'] (hc : c' ↔ c) {x' : Walk α} {y' : Walk β}
    (hx : InStep π R x y) (hx' : InStep π R x' y') :
    InStep π R (if c then x else x') (if c' then y else y') :=
  .iteOf hc (fun _ => hx) fun _ => hx'

lemma forM {f : γ → Walk Unit} {g : δ → Walk Unit} (h : List.Forall₂ S l l')
    (hf : ∀ a b, S a b → InStep π Eq (f a) (g b)) : InStep π Eq (l.forM f) (l'.forM g) := by
  induction h with
  | nil => exact .done ()
  | cons hab _ ih => exact .andThen (hf _ _ hab) fun _ => ih

lemma mapM {g : δ → Walk β} (h : List.Forall₂ S l l') (hf : ∀ a b, S a b → InStep π R (f a) (g b)) :
    InStep π (List.Forall₂ R) (l.mapM f) (l'.mapM g) := by
  induction h with
  | nil => exact .pure .nil
  | cons hab _ ih =>
    rw [mapM_cons, mapM_cons]
    exact .bind (hf _ _ hab) fun a b hab => .bind ih fun as bs hrest => .pure (.cons hab hrest)

lemma mapM_eq {g : δ → Walk α} (h : List.Forall₂ S l l')
    (hf : ∀ a b, S a b → InStep π Eq (f a) (g b)) : InStep π Eq (l.mapM f) (l'.mapM g) :=
  (mapM h hf).mono fun _ _ h => forall₂_eq_eq_eq ▸ h

lemma foldlM {f : α → γ → Walk α} {g : α → δ → Walk α} (h : List.Forall₂ S l l')
    (hf : ∀ a c d, S c d → InStep π Eq (f a c) (g a d)) (a : α) :
    InStep π Eq (l.foldlM f a) (l'.foldlM g a) := by
  induction h generalizing a with
  | nil => exact .done a
  | cons hcd _ ih =>
    rw [foldlM_cons, foldlM_cons]
    exact .andThen (hf a _ _ hcd) fun b => ih b

lemma setting {f : Setting → Walk α} {g : Setting → Walk β}
    (hf : ∀ st st' : Setting, st.Twin π st' → InStep π R (f st) (g st')) :
    InStep π R (setting >>= f) (setting >>= g) :=
  fun p p' s s' hp hs => hf p.toSetting p'.toSetting hp.toTwin p p' s s' hp hs

lemma path {f : List Tree → Walk α} {g : List Tree → Walk β}
    (hf : ∀ q q', List.Forall₂ (IsTwin π) q q' → InStep π R (f q) (g q')) :
    InStep π R (path >>= f) (path >>= g) :=
  fun p p' s s' hp hs => hf p.path p'.path hp.path p p' s s' hp hs

lemma ask {R : α → α → Prop} {question : TypeIndex → Query α}
    (h : Inquiry π.toExchange R question) :
    InStep π R (ask question) (ask question) := by
  intro p p' s s' hp hs
  obtain ⟨hanswer, hmemory⟩ := h p.index p'.index s.memory s'.memory hs.memory
  exact ⟨hanswer, hmemory, hs.scopes, hs.records⟩

lemma pose (q : Question) : InStep π q.Agrees (Walk.ask q.pose) (Walk.ask q.pose) :=
  .ask (.of_question q)

lemma localType? (simple : String) : InStep π Eq (localType? simple) (localType? simple) := by
  intro p p' s s' _ hs
  refine ⟨?_, hs⟩
  change s.scopes.findSome? _ = s'.scopes.findSome? _
  rw [hs.scopes]

lemma localVariable? (name : String) : InStep π Eq (localVariable? name) (localVariable? name) := by
  intro p p' s s' _ hs
  refine ⟨?_, hs⟩
  change s.scopes.findSome? _ = s'.scopes.findSome? _
  rw [hs.scopes]

section

variable {t t' : Tree}

lemma text (h : t'.text π.source' = t.text π.source) : InStep π Eq (text t) (text t') :=
  .setting fun st st' hst => .pure (by rw [hst.source, hst.source', h])

lemma erased (h : t'.erased π.source' = t.erased π.source) : InStep π Eq (erased t) (erased t') :=
  .setting fun st st' hst => .pure (by rw [hst.source, hst.source', h])

lemma dimensions (h : IsTwin π t t') : InStep π Eq (dimensions t) (dimensions t') := by
  obtain ⟨_, h⟩ := h
  exact .setting fun st st' hst => .pure (by rw [hst.source, hst.source', h.countDims])

lemma unitName (h : t'.start = π.start t.start) : InStep π Eq (unitName t) (unitName t') := by
  refine .setting fun st st' hst => .pure ?_
  rw [Declarations.nameOf?, Declarations.nameOf?, h, hst.names]

lemma spanOf (h : IsTwin π t t') :
    InStep π (fun span span' => π.isFixed → span' = span) (spanOf t) (spanOf t') := by
  refine .setting fun st st' hst => .pure fun hfixed => ?_
  rw [hst.lines hfixed, (h.range hfixed).1, (h.range hfixed).2]

end

variable {t t' : Tree}

lemma declare (change : Scope → Scope) : InStep π Eq (declare change) (declare change) :=
  fun _ _ _ _ _ hs => ⟨rfl, hs.memory, congrArg (changeInnermost change) hs.scopes, hs.records⟩

lemma bindVariable (name : String) (type : Option TypeName) :
    InStep π Eq (bindVariable name type) (bindVariable name type) := .declare _

lemma inScope {x y : Walk Unit} (h : InStep π Eq x y) : InStep π Eq (inScope x) (inScope y) := by
  intro p p' s s' hp hs
  have hs₁ : WalkState.Twin π p.index p'.index { s with scopes := {} :: s.scopes }
      { s' with scopes := {} :: s'.scopes } :=
    ⟨hs.memory, congrArg ({} :: ·) hs.scopes, hs.records⟩
  obtain ⟨_, hs₂⟩ := h p p' _ _ hp hs₁
  exact ⟨rfl, hs₂.memory, congrArg (List.drop 1) hs₂.scopes, hs₂.records⟩

lemma insideType (name : String) (vars : List TypeVariable) {x y : Walk Unit}
    (h : InStep π Eq x y) : InStep π Eq (insideType name vars x) (insideType name vars y) := by
  intro p p' s s' hp hs
  have hp₁ : Place.Twin π
      { p with context := (p.context.inside name).declaring vars, frames := name :: p.frames }
      { p' with context := (p'.context.inside name).declaring vars, frames := name :: p'.frames } :=
    { hp with
      context := congrArg (fun ctx : Context => (ctx.inside name).declaring vars) hp.context
      frames := congrArg (name :: ·) hp.frames }
  have hs₁ : WalkState.Twin π p.index p'.index { s with calls := [] } { s' with calls := [] } :=
    ⟨hs.memory, hs.scopes, hs.records⟩
  obtain ⟨_, hs₂⟩ := h _ _ _ _ hp₁ hs₁
  exact ⟨rfl, hs₂.memory, hs₂.scopes, hs₂.records⟩

lemma withVariables (vars : List TypeVariable) (h : InStep π R x y) :
    InStep π R (withVariables vars x) (withVariables vars y) := by
  intro p p' s s' hp hs
  have hp₁ : Place.Twin π { p with context := p.context.declaring vars }
      { p' with context := p'.context.declaring vars } :=
    { hp with context := congrArg (fun ctx : Context => ctx.declaring vars) hp.context }
  exact h _ _ s s' hp₁ hs

lemma inside (ht : IsTwin π t t') (h : InStep π R x y) : InStep π R (inside t x) (inside t' y) := by
  intro p p' s s' hp hs
  have hp₁ : Place.Twin π { p with path := t :: p.path } { p' with path := t' :: p'.path } :=
    { hp with path := .cons ht hp.path }
  exact h _ _ s s' hp₁ hs

lemma rememberedCall (q q' : Tree.Position) {x y : Walk CallOutcome} (h : InStep π Eq x y) :
    InStep π Eq (rememberedCall q x) (rememberedCall q' y) := by
  intro p p' s s' hp hs
  rw [rememberedCall_of_unknown (.inl hp.never), rememberedCall_of_unknown (.inl hp.never')]
  obtain ⟨hab, hs₁⟩ := h p p' s s' hp hs
  exact ⟨hab, hs₁.memory, hs₁.scopes, hs₁.records⟩

lemma addRecord {r r' : Record} (h : r.Twin π r') :
    InStep π Eq (Walk.addRecord r) (Walk.addRecord r') := by
  unfold Walk.addRecord
  refine .ite (by rw [h.name]) (.done ()) (.setting fun st st' hst p p' s s' _ hs => ?_)
  have hrecord : Record.Twin π { r with name := st.declarations.display r.name }
      { r' with name := st'.declarations.display r'.name } :=
    { h with name := by rw [h.name, hst.display] }
  refine ⟨rfl, hs.memory, hs.scopes, ?_⟩
  change Forall₂ _ (s.add _).records (s'.add _).records
  rw [WalkState.records_add, WalkState.records_add]
  exact rel_append hs.records (.cons hrecord .nil)

section

variable (construct : Construct)

lemma emitWith (name : TypeName) {span span' : Span}
    (hspan : π.isFixed → span' = span) (values : Option ElementValues) :
    InStep π Eq (emitWith construct name span values) (emitWith construct name span' values) := by
  refine .setting fun st st' hst => .addRecord ⟨rfl, rfl, rfl, rfl, hspan, fun hfixed => ?_⟩
  rw [hst.lines hfixed, hspan hfixed]

lemma emit (name : TypeName) {span span' : Span} (hspan : π.isFixed → span' = span) :
    InStep π Eq (emit construct name span) (emit construct name span') :=
  .emitWith construct name hspan none

lemma emitAt (name : TypeName) (h : IsTwin π t t') :
    InStep π Eq (emitAt construct name t) (emitAt construct name t') :=
  .bind (.spanOf h) fun _ _ hspan => .emit construct name hspan

lemma emitCalls (names : List TypeName) (h : IsTwin π t t') :
    InStep π Eq (emitCalls construct names t) (emitCalls construct names t') :=
  .forM (S := Eq) (forall₂_eq_eq_eq ▸ rfl) fun name _ heq => heq ▸ .emitAt construct name h

end

lemma of (h : Inquires x) : InStep π Eq x x := by
  induction h with
  | pure a => exact .done a
  | setting hf _ ih =>
    refine .setting fun st st' hst => ?_
    rw [hf st st' ⟨hst.context, hst.frames, hst.index.contains, hst.index.packageExists⟩]
    exact ih st
  | ask h => exact .ask (h.inquiry _)
  | describe q _ horigin ih =>
    refine .bind (.pose (.description q)) fun info info' (hinfo : SameButOrigin info info') => ?_
    cases hinfo with
    | none => exact ih none
    | some t origin =>
      rw [horigin t origin]
      exact ih (some t)
  | localType simple => exact .localType? simple
  | localVariable name => exact .localVariable? name
  | bind _ _ ihx ihf => exact .andThen ihx ihf

lemma typeNameAt (h : t'.erased π.source' = t.erased π.source) (dims : Nat) :
    InStep π Eq (typeNameAt t dims) (typeNameAt t' dims) :=
  .andThen (.erased h) fun _ => .of (.typeName _)

end InStep

end Xref.Reference
