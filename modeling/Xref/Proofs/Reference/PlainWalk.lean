import Xref.Proofs.Reference.Enumeration
import Xref.Proofs.Resolve.Independence

/-!
# Chains and plain recursion

A chain of operators or of calls can be as long as a file, so it is walked as a list: first all
calls are bound, then they are reported, then their parts are visited. `plainFrom` gives trees the
meanings that plain recursion gives them. For operators the two are the same walks; for calls the
references are the same if the answers of the resolver do not depend on the order of questions.
-/
open List

namespace Xref.Reference

open Declaration Java Resolve Syntax Text Walk Tree

/-- What a meaning is taken apart into comes to the whole. -/
structure Meaning.Whole (m : Meaning) : Prop where
  type : m.type = do m.steps.foldlM (fun left step => step left) (← m.leftmost)
  visit : m.visit = m.operands.forM id

lemma whole_meaningFrom (p : Tree.Position) (t : Tree) (cs : Sense) :
    (meaningFrom p t cs).Whole := by
  cases hchain : t.kind == .binaryExpression with
  | false => constructor <;> simp [meaningFrom, hchain]
  | true =>
    have hkind := eq_of_beq hchain
    constructor
    · simp only [meaningFrom, hkind, typeFrom, beq_self_eq_true, if_true]
    · simp only [meaningFrom, hkind, visitFrom, beq_self_eq_true, if_true]
      rfl

section

variable {t : Tree} {cs : Sense} (h : ∀ c ∈ cs, c.2.value.Whole)
include h

lemma forM_operandsFrom : (operandsFrom t cs).forM id =
    (do visitIn t cs .left; visitIn t cs .right) := by
  have hleft : inside t ((((cs.child? .left).map fun c => c.2.value.operands).getD []).forM
      id) = visitIn t cs .left := by
    unfold visitIn
    cases hc : cs.child? .left with
    | none => rfl
    | some c => exact congrArg _ (h c (mem_of_find?_eq_some hc)).visit.symm
  have hright : inside t ((((cs.child? .right).map fun c => c.2.value.visit).toList).forM
      id) = visitIn t cs .right := by
    unfold visitIn
    cases cs.child? .right <;> rfl
  rw [operandsFrom, Acts.forM_inside, Acts.forM_append, ← hleft, ← hright]
  rfl

lemma foldlM_stepsOf : (do (stepsOf t cs).foldlM (fun left step => step left) (← leftmostOf cs)) =
    (do binaryStep t cs (← typeIn cs .left)) := by
  unfold stepsOf leftmostOf typeIn
  cases hc : cs.child? .left with
  | none => simp
  | some c =>
    simp only [Option.map_some, Option.getD_some, (h c (mem_of_find?_eq_some hc)).type]
    simp

variable (hkind : t.kind = .binaryExpression) (p : Tree.Position)
include hkind

lemma visit_of_operator : (meaningFrom p t cs).visit =
    (do visitIn t cs .left; visitIn t cs .right) := by
  simp only [meaningFrom, visitFrom, hkind]
  exact forM_operandsFrom h

lemma type_of_operator : (meaningFrom p t cs).type = (do binaryStep t cs (← typeIn cs .left)) := by
  simp only [meaningFrom, typeFrom, hkind]
  exact foldlM_stepsOf h

end

lemma whole_of_mem_parts {p : Tree.Position} {t : Tree} {c : SensePart}
    (h : c ∈ (meaning p t).parts) : c.2.value.Whole := by
  obtain ⟨i, child, _, rfl⟩ := mem_parts_meaning h
  rw [value_meaning]
  exact whole_meaningFrom _ _ _

namespace Walk

def visitReceiver (cs : Sense) : Walk Unit :=
  match cs.child? .object with
  | some (c, m) => if c.kind == .methodInvocation then m.value.visit else pure ()
  | none => pure ()

/-- Reports a call, then visits its receiver if that is a call, then its other parts in the order of
the source. -/
def visitCall (t : Tree) (cs : Sense) (call : Walk CallOutcome) : Walk Unit := do
  reportLinks [linkFrom t cs call]
  inside t do
    visitReceiver cs
    (cs.named.filter fun c => !Acts.isPrevious c).forM fun c => c.2.value.visit

/-- Meanings by plain recursion. An operator is typed and visited by way of its operands, and a call
by way of its receiver. -/
def plainFrom (p : Tree.Position) (t : Tree) (cs : Sense) : Meaning :=
  let flat := meaningFrom p t cs
  match t.kind with
  | .binaryExpression =>
    let type := do binaryStep t cs (← typeIn cs .left)
    { flat with
      type := type
      operand := operandFrom t cs type
      element := elementFrom t cs type
      visit := do visitIn t cs .left; visitIn t cs .right }
  | .methodInvocation =>
    { flat with visit := visitCall t cs (rememberedCall p (bindInvocation t cs)) }
  | _ => flat

def plainChain : List Link → Walk Unit
  | [] => pure ()
  | link :: rest => do
    reportLinks [link]
    inside link.tree do
      plainChain rest
      link.parts

end Walk

/-- The references of a unit by plain recursion, with calls that are bound anew each time. -/
def collectPlainly (st : Setting) (unit : Tree) : WalkState :=
  ((Walk.visitAll unit (Tree.decorate Walk.plainFrom [] unit).parts).run
    { st with remembering := .never, path := [] } |>.run {}).2

lemma silentOn_plainFrom : SilentOn plainFrom := by
  intro c p h hleaf
  cases c with
  | node => cases hleaf.leaf
  | leaf role kind range text =>
    have hplain : decorate plainFrom p (.leaf role kind range text) =
        meaning p (.leaf role kind range text) := by
      change kind.isComment at h
      revert h
      cases kind <;> first | exact fun _ => rfl | simp [Kind.isComment]
    rw [hplain]
    exact silentOn_meaningFrom _ p h hleaf

/-- Plain recursion goes through a chain call by call. -/
lemma visit_plain (p : Tree.Position) (t : Tree) :
    (t.kind = .methodInvocation → (decorate plainFrom p t).value.visit =
        plainChain (decorate plainFrom p t).value.links) ∧
      (t.kind ≠ .methodInvocation → (decorate plainFrom p t).value.links = []) := by
  induction t using induction generalizing p with
  | step t ih =>
    have hlinks (cs : Sense) : (plainFrom p t cs).links =
        linksFrom t cs (rememberedCall p (bindInvocation t cs)) := by
      unfold plainFrom
      split <;> rfl
    rw [value_decorate, hlinks]
    refine ⟨fun hkind => ?_, fun hkind => if_neg (by simpa using hkind)⟩
    have hreceiver : visitReceiver (decorate plainFrom p t).parts =
        plainChain (((Valued.child? (decorate plainFrom p t).parts .object).map
          fun c => c.2.value.links).getD []) := by
      unfold visitReceiver
      cases hc : Valued.child? (decorate plainFrom p t).parts .object with
      | none => rfl
      | some c =>
        obtain ⟨i, child, hi, rfl⟩ := mem_parts_decorate (mem_of_find?_eq_some hc)
        obtain ⟨hcall, hother⟩ := ih child (mem_of_getElem? hi) (i :: p)
        by_cases hchild : child.kind = .methodInvocation
        · simp [hchild, hcall hchild]
        · simp [hchild, hother hchild, plainChain]
    rw [Acts.linksFrom_of_invocation hkind]
    simp only [plainFrom, hkind, visitCall, hreceiver]
    rfl

/-- Resolvers of the same index, if answers do not depend on what was asked before. -/
def settled (index : TypeIndex)
    (h : ∀ history q, answer index history q = answer index [] q) : Exchange where
  holds index₁ index₂ m m' := index₁ = index ∧ index₂ = index ∧
    (∃ history, m = after index history) ∧ ∃ history, m' = after index history
  pose q := by
    rintro index₁ index₂ m m' ⟨rfl, rfl, ⟨history, rfl⟩, history', rfl⟩
    refine ⟨?_, rfl, rfl, ⟨history ++ [q], by rw [after_append]; rfl⟩,
      history' ++ [q], by rw [after_append]; rfl⟩
    change q.Agrees (answer _ history q) (answer _ history' q)
    rw [h history, h history']
    exact q.agrees_refl _

section

variable {index : TypeIndex} {hindex : ∀ history q, answer index history q = answer index [] q}
  {π : Passage} {α β : Type} {binding : Bindings} {κ : Contexts} {ctx : Context} {x : Walk α}
  {links : List Link}

lemma InStep.skip (hx : Evaluation binding κ ctx x) {y z : Walk β}
    (h : InStep ⟨π, settled index hindex⟩ Eq y z) :
    InStep ⟨π, settled index hindex⟩ Eq (x >>= fun _ => y) z := by
  intro p p' s s' hp hs
  have hanswers := hx.isQuery p s hp.never
  obtain ⟨hsame, hsame', ⟨history, hm⟩, hm'⟩ := hs.memory
  have hmemory : ∃ history, (x p s).2.memory = after index history := by
    obtain ⟨more, hmore⟩ := (hsame ▸ hx.posed p.toSetting s.scopes).exists_after history
    exact ⟨_, (congrArg Prod.snd hanswers.query).trans (hm ▸ hmore)⟩
  exact h p p' _ s' hp ⟨⟨hsame, hsame', hmemory, hm'⟩, hs.scopes.trans hanswers.scopes.symm,
    hanswers.records ▸ hs.records⟩

lemma InStep.skipCalls (hcalls : ∀ link ∈ links, Evaluation binding κ ctx link.call)
    {y z : Walk Unit} (h : InStep ⟨π, settled index hindex⟩ Eq y z) :
    InStep ⟨π, settled index hindex⟩ Eq
      (do links.forM fun link => discard link.call; y) z := by
  induction links with
  | nil => exact h
  | cons link links ih =>
    rw [forall_mem_cons] at hcalls
    exact .skip hcalls.1 (ih hcalls.2)

lemma Evaluation.inside_eq (h : Evaluation binding κ ctx x) (t : Tree) : inside t x = x := by
  induction h with
  | pure | setting | ask | localType | localVariable => rfl
  | call p _ _ ih => exact congrArg (rememberedCall p) ih
  | @bind _ _ x f _ _ ihx ihf =>
    change (inside t x >>= fun a => inside t (f a)) = _
    rw [ihx]
    exact congrArg _ (funext ihf)

lemma inside_forM {l : List α} {f : α → Walk Unit} {t : Tree}
    (h : ∀ a ∈ l, inside t (f a) = f a) : inside t (l.forM f) = l.forM f := by
  induction l with
  | nil => rfl
  | cons a l ih =>
    rw [forall_mem_cons] at h
    exact congrArg₂ (fun x y => x >>= fun _ => y) h.1 (ih h.2)

lemma inside_reportLinks (hcalls : ∀ link ∈ links, Evaluation binding κ ctx link.call) (t : Tree) :
    inside t (reportLinks links) = reportLinks links := by
  refine inside_forM fun link hlink => ?_
  cases link.tree.child? .name with
  | none => rfl
  | some name =>
    have hemit (type : TypeName) : inside t (emitAt .methodCall type name) =
        emitAt .methodCall type name := by
      unfold emitAt emit emitWith addRecord
      by_cases hempty : type.name.isEmpty <;> simp only [hempty] <;> rfl
    exact congrArg₂ Bind.bind ((hcalls link hlink).inside_eq t)
      (funext fun outcome => inside_forM fun type _ => hemit type)

lemma InStep.plainChain {links' : List Link}
    (hcalls : ∀ link ∈ links, Evaluation binding κ ctx link.call)
    (h : List.Forall₂ (Link.Twin ⟨π, settled index hindex⟩) links links') :
    InStep ⟨π, settled index hindex⟩ Eq
      (do Walk.reportLinks links; Walk.visitLinks links) (Walk.plainChain links') := by
  induction h with
  | nil => exact .done ()
  | @cons link link' links links' hlink _ ih =>
    rw [forall_mem_cons] at hcalls
    have hmove : (do Walk.reportLinks (link :: links); Walk.visitLinks (link :: links)) = (do
        Walk.reportLinks [link]
        Walk.inside link.tree (do
          (do Walk.reportLinks links; Walk.visitLinks links)
          (link.parts))) := by
      change (do
        Walk.reportLinks [link]; Walk.reportLinks links; Walk.visitLinks (link :: links)) = _
      conv_lhs => rw [← inside_reportLinks hcalls.2 link.tree]
      rfl
    rw [hmove]
    exact .andThen (.reportLinks (.cons hlink .nil)) fun _ =>
      .inside hlink.tree (.andThen (ih hcalls.2) fun _ => hlink.parts)

end

lemma plainFrom_twin {index : TypeIndex}
    {hindex : ∀ history q, answer index history q = answer index [] q} {π : Passage}
    {stand : Stand} {t t' : Tree} {cs cs' : Sense} {p p' : Tree.Position}
    {binding : Bindings} {κ : Contexts} {ctx : Context} (hwhole : ∀ c ∈ cs, c.2.value.Whole)
    (hcalls : ∀ link ∈ (meaningFrom p t cs).links, Evaluation binding κ ctx link.call)
    (hplain : t'.kind = .methodInvocation →
      (plainFrom p' t' cs').visit = plainChain (plainFrom p' t' cs').links)
    (htext : TwinText π stand t t') (h : PairedParts ⟨π, settled index hindex⟩ stand t t' cs cs') :
    (meaningFrom p t cs).Twin ⟨π, settled index hindex⟩ stand (plainFrom p' t' cs') := by
  have hflat := meaningFrom_twin h htext p p'
  have hkind := h.twin.kind
  unfold plainFrom at hplain ⊢
  split at hplain
  next hkind' =>
    have hkind := hkind.symm.trans hkind'
    have htype : InStep ⟨π, settled index hindex⟩ Eq (meaningFrom p t cs).type
        (do binaryStep t' cs' (← typeIn cs' .left)) := by
      rw [type_of_operator hwhole hkind]
      exact .andThen (.typeIn h .left) fun left => .binaryStep h left
    have hvisit : InStep ⟨π, settled index hindex⟩ Eq (meaningFrom p t cs).visit
        (do visitIn t' cs' .left; visitIn t' cs' .right) := by
      rw [visit_of_operator hwhole hkind]
      exact .andThen (.visitIn h .left) fun _ => .visitIn h .right
    exact { hflat with
      type := htype
      operand := .operandFrom h htext htype
      element := fun hstand => .elementFrom h htext hstand htype
      visit := hvisit }
  next hkind' =>
    refine { hflat with visit := ?_ }
    rw [hkind'] at hkind
    rw [hplain hkind']
    have hsame : (meaningFrom p t cs).visit = visitChain (meaningFrom p t cs).links := by
      simp only [meaningFrom, visitFrom, ← hkind]
      rfl
    rw [hsame]
    exact .skipCalls (fun link hlink => hcalls link (mem_reverse.mp hlink))
      (.plainChain hcalls hflat.links)
  next => exact hflat

/-- The meanings of operators are those of plain recursion, and so are the references of a unit
whose resolver does not mind in which order it is asked. -/
theorem records_of_plain_walk {source : List Char} {unit : Tree}
    (hparse : parse? source = some unit) (st : Setting) (r : Recall)
    (hindex : ∀ history q, answer st.index history q = answer st.index [] q) :
    (∀ (p : Tree.Position) (t : Tree), t.kind = .binaryExpression →
      (meaning p t).value.visit = (do
        Walk.visitIn t (meaning p t).parts .left
        Walk.visitIn t (meaning p t).parts .right) ∧
      (meaning p t).value.type = (do
        Walk.binaryStep t (meaning p t).parts (← Walk.typeIn (meaning p t).parts .left))) ∧
    (collect { st with remembering := r, path := [] } unit).records =
      (collectPlainly st unit).records := by
  constructor
  · intro p t hkind
    rw [value_meaning]
    exact ⟨visit_of_operator (fun _ hc => whole_of_mem_parts hc) hkind p,
      type_of_operator (fun _ hc => whole_of_mem_parts hc) hkind p⟩
  · let place : Place := { st with remembering := .never, path := [] }
    -- the parts of the unit, with the positions they have in it
    let V (p : Tree.Position) (t : Tree) : Prop := t.Shaped ∧ unit.at? p.reverse = some t
    have hvisit := visitAll_twin (π := ⟨.refl st.source, settled st.index hindex⟩) (V := V)
      silentOn_meaningFrom silentOn_plainFrom
      (fun h hc => ⟨h.1.parts _ (List.mem_of_getElem? hc), at?_child h.2 hc⟩)
      (fun {stand t t' p p'} h htext hcs => by
        obtain ⟨κ, haligned⟩ := exists_aligned source st.context p t
        cases soundAt_of_shaped unit h.1 h.2 haligned with
        | mk hmeaning _ =>
          rw [value_meaning] at hmeaning
          have hplain := (visit_plain p' t').1
          rw [value_decorate] at hplain
          exact plainFrom_twin (fun _ hc => whole_of_mem_parts hc) hmeaning.calls hplain htext hcs)
      ((placed_of_parse hparse).1.twin st.source .outside) ⟨shaped_of_parse hparse, rfl⟩
    have hrecords := (hvisit place place {} {}
      ⟨⟨.refl _, rfl, rfl, fun _ => rfl, fun _ => rfl, fun _ => rfl, rfl, rfl⟩, rfl, rfl, .nil⟩
      ⟨⟨rfl, rfl, ⟨[], rfl⟩, [], rfl⟩, rfl, .nil⟩).2.records
    have hsame := hrecords.imp fun record record' h => (h.eq trivial).symm
    rw [List.forall₂_eq_eq_eq] at hsame
    exact (collect_alike hparse place r).records.trans hsame

/-- A call on what a call gives, with a call as its argument. -/
theorem records_of_call_on_call :
    let source := "class A { A f(A a) { return f(a).f(f(a)); } }".toList
    ∃ unit, parse? source = some unit ∧
      (analyzeUnit (.ofTypes []) "A.java" source unit).records =
        (collectPlainly (Place.ofUnit (.overlay (declarationsOf "A.java" source unit).types
          (.ofTypes [])) source (declarationsOf "A.java" source unit)).toSetting unit).records := by
  intro source
  obtain ⟨unit, hunit, hranked⟩ : ∃ unit, parse? source = some unit ∧
      Ranked (.overlay (declarationsOf "A.java" source unit).types (.ofTypes []))
        fun q => if q = "A" then 1 else 0 := by
    decide +kernel
  clear_value source
  have hfresh := (answers_fresh_iff _).mpr hranked.fresh_after
  exact ⟨unit, hunit, (records_of_plain_walk hunit (Place.ofUnit _ source _).toSetting .trusting
    hfresh).2⟩

end Xref.Reference
