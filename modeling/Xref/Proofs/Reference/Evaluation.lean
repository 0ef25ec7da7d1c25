import Xref.Proofs.Resolve.History
import Xref.Reference.Place

/-!
# Evaluations

To find out what something means, a walk asks the resolver, looks into scopes and takes calls from
memory. `Evaluation` says that it does nothing else. If calls are never remembered, an evaluation is
a question to the resolver, and it has the same answer if they are, provided that every remembered
call would be bound in the same way again.
-/
namespace Xref.Reference

open Java Resolve Syntax Walk

abbrev Contexts := Tree.Position → Context

abbrev Bindings := Tree.Position → Walk CallOutcome

/-- A walk in the context `ctx` that asks the resolver, looks into scopes and binds calls. The call
at `p` is bound by `binding p`, and only those are bound that have this context. -/
inductive Evaluation (binding : Bindings)
    (κ : Contexts) (ctx : Context) : {α : Type} → Walk α → Prop where
  | pure {α : Type} (a : α) : Evaluation binding κ ctx (pure a)
  | setting : Evaluation binding κ ctx Walk.setting
  | ask {α : Type} {question : TypeIndex → Query α} (h : ∀ index, Posed index (question index)) :
      Evaluation binding κ ctx (Walk.ask question)
  | localType (simple : String) : Evaluation binding κ ctx (localType? simple)
  | localVariable (name : String) : Evaluation binding κ ctx (localVariable? name)
  | call (p : Tree.Position) (hp : κ p = ctx)
      (h : Evaluation binding κ ctx (binding p)) :
      Evaluation binding κ ctx (rememberedCall p (binding p))
  | bind {α β : Type} {x : Walk α} {f : α → Walk β} (hx : Evaluation binding κ ctx x)
      (hf : ∀ a, Evaluation binding κ ctx (f a)) : Evaluation binding κ ctx (x >>= f)

variable {α β : Type} {p : Tree.Position} {place : Place} {s : WalkState} {x : Walk α}
  {f : α → Walk β}

lemma walk_bind_apply (x : Walk α) (f : α → Walk β) (place : Place) (s : WalkState) :
    (x >>= f) place s = f (x place s).1 place (x place s).2 := rfl

/-- What a walk asks the resolver where calls are never remembered. -/
def Walk.query (x : Walk α) (st : Setting) (scopes : List Scope) : Query α := fun m =>
  let r := x { st with remembering := .never, path := [] } { memory := m, scopes := scopes }
  (r.1, r.2.memory)

/-- Walking `x` comes to the same as asking the resolver. Scopes and records stay as they are. -/
structure Answers (x : Walk α) (place : Place) (s : WalkState) : Prop where
  query : ((x place s).1, (x place s).2.memory) = x.query place.toSetting s.scopes s.memory
  scopes : (x place s).2.scopes = s.scopes
  found : (x place s).2.found = s.found

lemma Answers.records (h : Answers x place s) : (x place s).2.records = s.records :=
  congrArg (List.map Prod.fst) h.found

/-- Where calls are never remembered, the walk is a question to the resolver. -/
def IsQuery (x : Walk α) : Prop :=
  ∀ (place : Place) (s : WalkState), place.remembering = .never → Answers x place s

lemma query_bind (hx : IsQuery x) (hf : ∀ a, IsQuery (f a)) (st : Setting) (scopes : List Scope)
    (m : Memory) :
    (x >>= f).query st scopes m =
      (f (x.query st scopes m).1).query st scopes (x.query st scopes m).2 := by
  have hfirst := hx { st with remembering := .never, path := [] } { memory := m, scopes := scopes }
    rfl
  have hthen := (hf (x.query st scopes m).1 { st with remembering := .never, path := [] }
    (x { st with remembering := .never, path := [] } { memory := m, scopes := scopes }).2 rfl).query
  rw [hfirst.scopes] at hthen
  exact hthen

lemma Answers.bind (hx : IsQuery x) (hf : ∀ a, IsQuery (f a)) (hfirst : Answers x place s)
    (hthen : Answers (f (x place s).1) place (x place s).2) : Answers (x >>= f) place s where
  query := by
    rw [query_bind hx hf, ← hfirst.query, ← hfirst.scopes]
    exact hthen.query
  scopes := hthen.scopes.trans hfirst.scopes
  found := hthen.found.trans hfirst.found

section

variable {x : Walk CallOutcome} {outcome : CallOutcome}

lemma rememberedCall_of_trusting (hr : place.remembering = .trusting)
    (h : s.calls.lookup p = some outcome) : rememberedCall p x place s = (outcome, s) := by
  simp only [rememberedCall, hr, h]

lemma rememberedCall_of_checking {complaint : Tree.Position → CallOutcome → CallOutcome → Record}
    (hr : place.remembering = .checking complaint) (h : s.calls.lookup p = some outcome)
    (hx : (x place s).1 = outcome) : rememberedCall p x place s = x place s := by
  rcases hrun : x place s with ⟨anew, s'⟩
  obtain rfl : anew = outcome := by rw [← hx, hrun]
  simp only [rememberedCall, hr, h, hrun, if_true]

lemma rememberedCall_of_unknown (h : place.remembering = .never ∨ s.calls.lookup p = none) :
    rememberedCall p x place s = ((x place s).1,
        { (x place s).2 with calls := (p, (x place s).1) :: (x place s).2.calls }) := by
  rcases h with h | h
  · simp only [rememberedCall, h]
    rfl
  · cases hr : place.remembering <;> simp only [rememberedCall, hr, h] <;> rfl

end

section

variable {binding : Bindings} {κ : Contexts} {ctx : Context} {x : Walk α} {m : Memory}
section

variable {x : Walk α} (h : Evaluation binding κ ctx x)
include h

lemma Evaluation.isQuery : IsQuery x := by
  induction h with
  | pure a => exact fun place s _ => ⟨rfl, rfl, rfl⟩
  | setting => exact fun place s _ => ⟨rfl, rfl, rfl⟩
  | ask h => exact fun place s _ => ⟨rfl, rfl, rfl⟩
  | localType simple => exact fun place s _ => ⟨rfl, rfl, rfl⟩
  | localVariable name => exact fun place s _ => ⟨rfl, rfl, rfl⟩
  | call p hp h ih =>
    intro place s hr
    have hrun := rememberedCall_of_unknown (p := p) (x := binding p) (s := s) (.inl hr)
    obtain ⟨hquery, hscopes, hfound⟩ := ih place s hr
    exact ⟨by rw [hrun]; exact hquery, by rw [hrun]; exact hscopes, by rw [hrun]; exact hfound⟩
  | bind _ _ ihx ihf => exact fun place s hr => .bind ihx ihf (ihx place s hr) (ihf _ place _ hr)

lemma Evaluation.posed (st : Setting)
    (scopes : List Scope) : Posed st.index (x.query st scopes) := by
  induction h with
  | pure a => exact .pure a
  | setting => exact .pure st
  | ask h => exact h st.index
  | localType simple => exact .pure (scopes.findSome? (·.localTypes.lookup simple))
  | localVariable name => exact .pure (scopes.findSome? (·.vars.lookup name))
  | call p hp h ih => exact ih
  | bind hx hf ihx ihf =>
    have hquery := funext (query_bind hx.isQuery (fun a => (hf a).isQuery) st scopes)
    rw [hquery]
    exact .bind ihx ihf

lemma Evaluation.stable (st : Setting) (scopes : List Scope) : Stable (x.query st scopes) :=
  (h.posed st scopes).stable

end

structure SameNames (scopes scopes' : List Scope) : Prop where
  types : ∀ name, scopes.findSome? (·.localTypes.lookup name) =
    scopes'.findSome? (·.localTypes.lookup name)
  vars : ∀ name, scopes.findSome? (·.vars.lookup name) = scopes'.findSome? (·.vars.lookup name)

lemma SameNames.refl (scopes : List Scope) : SameNames scopes scopes := ⟨fun _ => rfl, fun _ => rfl⟩

lemma Evaluation.query_congr (h : Evaluation binding κ ctx x) (st : Setting)
    {scopes scopes' : List Scope} (hs : SameNames scopes scopes') :
    x.query st scopes = x.query st scopes' := by
  induction h with
  | pure a => rfl
  | setting => rfl
  | ask h => rfl
  | localType simple => exact funext fun m => Prod.ext (hs.types simple) rfl
  | localVariable name => exact funext fun m => Prod.ext (hs.vars name) rfl
  | call p hp h ih => exact ih
  | bind hx hf ihx ihf =>
    funext m
    rw [query_bind hx.isQuery fun a => (hf a).isQuery, ihx, ihf,
      query_bind hx.isQuery fun a => (hf a).isQuery]

/-- While names mean what they mean in `scopes` and the resolver remembers at least `m`, the walk
has the answer `a` and the resolver learns nothing. -/
def Walk.Settled (x : Walk α) (st : Setting) (scopes : List Scope) (m : Memory) (a : α) : Prop :=
  ∀ scopes' m', SameNames scopes scopes' → m'.active = [] → m.Within m' →
    x.query st scopes' m' = (a, m')

lemma Evaluation.settled (h : Evaluation binding κ ctx x) (st : Setting) (scopes : List Scope)
    (hm : m.active = []) : x.Settled st scopes (x.query st scopes m).2 (x.query st scopes m).1 := by
  intro scopes' m' hnames hidle hwithin
  rw [← h.query_congr st hnames]
  exact (h.stable st scopes m hm).2 m' hidle hwithin

/-- Every remembered call would be bound in the same way again, where `κ p` is the context
of the call at `p`. -/
structure Trusted (binding : Bindings) (κ : Contexts)
    (st : Setting) (s : WalkState) : Prop where
  idle : s.memory.active = []
  settled : ∀ p outcome, s.calls.lookup p = some outcome →
    (binding p).Settled { st with context := κ p } s.scopes s.memory outcome

variable {st : Setting}

lemma Trusted.grow (hs : Trusted binding κ st s) (hm : s.memory.Grows m) :
    Trusted binding κ st { s with memory := m } where
  idle := hm.active.trans hs.idle
  settled p outcome hp scopes' m' hnames hidle hwithin :=
    hs.settled p outcome hp scopes' m' hnames hidle (hm.toWithin.trans hwithin)

lemma Trusted.remember (hs : Trusted binding κ st s) (hp : κ p = st.context) {outcome : CallOutcome}
    (h : (binding p).Settled st s.scopes s.memory outcome) :
    Trusted binding κ st { s with calls := (p, outcome) :: s.calls } where
  idle := hs.idle
  settled q o hq := by
    by_cases hqp : q = p
    · subst hqp
      obtain rfl : outcome = o := by simpa using hq
      rw [hp]
      exact h
    · have hb : (q == p) = false := beq_false_of_ne hqp
      rw [List.lookup_cons, hb] at hq
      exact hs.settled q o hq

lemma Trusted.answers {r : CallOutcome × WalkState} (heq : rememberedCall p (binding p) place s = r)
    (hquery : (r.1, r.2.memory) = (binding p).query place.toSetting s.scopes s.memory)
    (hscopes : r.2.scopes = s.scopes) (hfound : r.2.found = s.found)
    (htrust : Trusted binding κ place.toSetting r.2) :
    Answers (rememberedCall p (binding p)) place s ∧ Trusted binding κ place.toSetting
        (rememberedCall p (binding p) place s).2 := by
  subst heq
  exact ⟨⟨hquery, hscopes, hfound⟩, htrust⟩

/-- A call has the answer that it has where calls are never remembered, because what is remembered
is what would be found. -/
lemma Trusted.call (h : Evaluation binding κ ctx (binding p)) (hp : κ p = place.context)
    (hs : Trusted binding κ place.toSetting s) (hrun : Answers (binding p) place s)
    (htrust : Trusted binding κ place.toSetting (binding p place s).2) :
    Answers (rememberedCall p (binding p)) place s ∧ Trusted binding κ place.toSetting
        (rememberedCall p (binding p) place s).2 := by
  have hsettled : (binding p).Settled place.toSetting (binding p place s).2.scopes
      (binding p place s).2.memory (binding p place s).1 := by
    have h := h.settled place.toSetting s.scopes hs.idle
    rwa [← hrun.query, ← hrun.scopes] at h
  have hanew (hu : place.remembering = .never ∨ s.calls.lookup p = none) :=
    Trusted.answers (rememberedCall_of_unknown hu) hrun.query hrun.scopes hrun.found
      (htrust.remember hp hsettled)
  cases hl : s.calls.lookup p with
  | none => exact hanew (.inr hl)
  | some outcome =>
    -- what is remembered would be found now, and the resolver would learn nothing
    have hsame : (binding p).query place.toSetting s.scopes s.memory = (outcome, s.memory) := by
      have hold := hs.settled p outcome hl s.scopes s.memory (.refl s.scopes) hs.idle
        (Memory.Grows.refl s.memory).toWithin
      rwa [hp] at hold
    cases hr : place.remembering with
    | never => exact hanew (.inl hr)
    | trusting => exact Trusted.answers (rememberedCall_of_trusting hr hl) hsame.symm rfl rfl hs
    | checking complaint =>
      have houtcome : (binding p place s).1 = outcome := congrArg Prod.fst (hrun.query.trans hsame)
      exact Trusted.answers (rememberedCall_of_checking hr hl houtcome) hrun.query hrun.scopes
        hrun.found htrust

lemma Evaluation.run (h : Evaluation binding κ ctx x) (hctx : place.context = ctx)
    (hs : Trusted binding κ place.toSetting s) :
    Answers x place s ∧ Trusted binding κ place.toSetting (x place s).2 := by
  induction h generalizing s with
  | pure a => exact ⟨⟨rfl, rfl, rfl⟩, hs⟩
  | setting => exact ⟨⟨rfl, rfl, rfl⟩, hs⟩
  | ask h => exact ⟨⟨rfl, rfl, rfl⟩, hs.grow ((h place.index).stable s.memory hs.idle).1⟩
  | localType simple => exact ⟨⟨rfl, rfl, rfl⟩, hs⟩
  | localVariable name => exact ⟨⟨rfl, rfl, rfl⟩, hs⟩
  | call p hp h ih =>
    obtain ⟨hrun, htrust⟩ := ih hs
    exact hs.call h (hp.trans hctx.symm) hrun htrust
  | bind hx hf ihx ihf =>
    obtain ⟨hrun, htrust⟩ := ihx hs
    obtain ⟨hrun', htrust'⟩ := ihf _ htrust
    exact ⟨.bind hx.isQuery (fun a => (hf a).isQuery) hrun hrun', htrust'⟩

end

end Xref.Reference

