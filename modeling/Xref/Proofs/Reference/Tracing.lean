import Mathlib.Data.List.Nodup
import Xref.Proofs.Reference.Trace

/-!
# Walks over trees, step by step

What the walk over a tree does comes from the tree itself and from the children that are followed.
The walk over a child starts where the child stands, in the context that the tree has for it.
-/
open List Option

namespace Xref.Reference

open Declaration Java Resolve Syntax Text Walk Tree

variable {α β : Type} {source : List Char} {f : α → List β} {l : List α} {k : Kind} {t : Tree}
  {o : Scene} {u v : View} {κ : Contexts} {cs : Sense}

lemma flatMap_filter_of_nil {p : α → Bool} (h : ∀ a ∈ l, p a = false → f a = []) :
    (l.filter p).flatMap f = l.flatMap f := by
  induction l with
  | nil => rfl
  | cons a l ih =>
    have hrest := ih fun a ha => h a (mem_cons_of_mem _ ha)
    cases ha : p a with
    | true => rw [filter_cons_of_pos ha, flatMap_cons, flatMap_cons, hrest]
    | false =>
      rw [filter_cons_of_neg (by simp [ha]), flatMap_cons, h a mem_cons_self ha, nil_append, hrest]

/-- If at most one element passes each test and none passes two, what the elements give is what
those give that pass a test. -/
lemma flatMap_perm_of_tests (tests : List (α → Bool)) (hsingle : ∀ p ∈ tests, l.countP p ≤ 1)
    (hapart : tests.Pairwise fun p q => ∀ a ∈ l, p a → q a = false)
    (hnone : ∀ a ∈ l, (∀ p ∈ tests, p a = false) → f a = []) :
    (l.flatMap f).Perm (tests.flatMap fun p => (l.find? p).toList.flatMap f) := by
  induction tests generalizing f with
  | nil =>
    have hnil : l.flatMap f = [] := flatMap_eq_nil_iff.mpr fun a ha => hnone a ha nofun
    rw [hnil]
    exact .refl _
  | cons p tests ih =>
    obtain ⟨hp, hrest⟩ := pairwise_cons.mp hapart
    -- what is left of `f` after the elements that pass `p`
    let g : α → List β := fun a => if p a then [] else f a
    have hg : (l.flatMap g).Perm (tests.flatMap fun q => (l.find? q).toList.flatMap g) := by
      refine ih (fun q hq => hsingle q (mem_cons_of_mem _ hq)) hrest fun a ha hq => ?_
      by_cases hpa : p a
      · exact if_pos hpa
      · rw [show g a = f a from if_neg hpa]
        exact hnone a ha (forall_mem_cons.mpr ⟨by simpa using hpa, hq⟩)
    have hsame (q : α → Bool) (hq : q ∈ tests) :
        (l.find? q).toList.flatMap g = (l.find? q).toList.flatMap f := by
      cases hfound : l.find? q with
      | none => rfl
      | some a =>
        have hpa : ¬ p a := by
          intro hpa
          have hqa := hp q hq a (mem_of_find?_eq_some hfound) hpa
          rw [find?_some hfound] at hqa
          cases hqa
        simp only [toList_some, flatMap_singleton]
        exact if_neg hpa
    rw [flatMap_cons, ← filter_eq_find? (hsingle p mem_cons_self), ← flatMap_congr hsame]
    refine .trans ?_ (.append_left _ hg)
    have hsplit := ((filter_append_perm p l).flatMap_right f).symm
    rw [flatMap_append] at hsplit
    refine hsplit.trans (.of_eq (congrArg _ ?_))
    have hg (a : α) (ha : p a = false) : g a = f a := if_neg (by simp [ha])
    rw [← flatMap_filter_of_nil (p := fun a => !p a) fun a _ ha => if_pos (by simpa using ha)]
    exact flatMap_congr fun a ha => (hg a (by simpa using (mem_filter.mp ha).2)).symm

lemma getD_map_induction {P : β → Prop} {o : Option α} {f : α → β} {b : β}
    (hb : P b) (h : ∀ a, o = some a → P (f a)) : P ((o.map f).getD b) := by
  cases o with
  | none => exact hb
  | some a => exact h a rfl

lemma isFragment_of_isType (h : k.isType) : k.isFragment = false := by
  revert h
  cases k <;> decide

lemma inked_nameOfType (h : t.Within source) (hkind : t.kind.isFragment = false) :
    Inked source t.nameOfType.range := by
  induction t using induction with
  | step t ih =>
    have hself := h.inked hkind
    unfold nameOfType
    rw [fold_eq]
    split
    case h_1 =>
      refine getD_map_induction (P := fun t : Tree => Inked source t.range) hself fun c hfound => ?_
      obtain ⟨child, hchild, rfl⟩ := List.mem_map.mp (mem_of_find?_eq_some hfound)
      refine (h.parts child hchild).inked ?_
      have hkinds := find?_some hfound
      simp only [contains_cons, contains_nil, Bool.or_false, Bool.or_eq_true, beq_iff_eq] at hkinds
      rcases hkinds with hkind | hkind <;> rw [hkind] <;> rfl
    case h_2 =>
      refine getD_map_induction (P := fun t : Tree => Inked source t.range) hself fun c hfound => ?_
      have htype := find?_some hfound
      have hmem := mem_reverse.mp (mem_of_find?_eq_some hfound)
      obtain ⟨child, hchild, rfl⟩ := List.mem_map.mp hmem
      exact ih child hchild (h.parts child hchild) (isFragment_of_isType htype)
    case h_3 => exact hself

lemma within_of_child? {c : Tree} {r : Role} (h : t.Within source) (hc : t.child? r = some c) :
    c.Within source :=
  h.parts c (mem_of_child? hc)

lemma within_of_childOf? {c : Tree} (h : t.Within source) (hc : t.childOf? k = some c) :
    c.Within source :=
  h.parts c (mem_of_find?_eq_some hc)

lemma inked_typesOf {clause : Option Tree} (h : ∀ c, clause = some c → c.Within source) :
    ∀ x ∈ typesOf clause, Inked source x.nameOfType.range := by
  intro x hx
  cases clause with
  | none => cases hx
  | some c =>
    have hlist : (if c.kind == .typeList then c else (c.childOf? .typeList).getD c).Within
        source := by
      split
      · exact h c rfl
      · cases hchild : c.childOf? .typeList with
        | none => exact h c rfl
        | some list => exact within_of_childOf? (h c rfl) hchild
    obtain ⟨hmem, htype⟩ := mem_filter.mp hx
    exact inked_nameOfType (hlist.parts x hmem) (isFragment_of_isType htype)

lemma kind_of_form {k : Kind} {form : Form} (p : Kind → Bool) (h : Form.ofKind k = form)
    (hne : form ≠ .other := by decide)
    (htable : Form.table.all fun e => e.2 != form || p e.1 := by decide) : p k := by
  unfold Form.ofKind at h
  cases hlookup : Form.table.lookup k with
  | none =>
    rw [hlookup] at h
    exact absurd h.symm hne
  | some form' =>
    rw [hlookup] at h
    obtain rfl : form' = form := h
    obtain ⟨before, after, hentries, _⟩ := lookup_eq_some_iff.mp hlookup
    have hmem : (k, form') ∈ Form.table := by simp [hentries]
    simpa using List.all_eq_true.mp htable _ hmem

lemma kind_eq_of_form {k k' : Kind} {form : Form} (h : Form.ofKind k = form)
    (hne : form ≠ .other := by decide)
    (htable : Form.table.all fun e => e.2 != form || e.1 == k' := by decide) : k = k' :=
  eq_of_beq (kind_of_form (· == k') h hne htable)

section

variable {d : Declarations} {c : Tree} {keys : List (Key × Extent)} {key : Key} {l : Label}

/-- Whether a shape has at most one child with a key, and none that has two keys. -/
def Key.isSingle (s : Shape) : Key → Bool
  | role r => s.single.contains r
  | kind k => s.singleKinds.contains k

lemma followingOf_fits (isNamed : Bool) (k : Kind) : (followingOf isNamed k).all fun keys =>
    (keys.map Prod.fst).Nodup ∧ keys.all fun e => e.1.isSingle k.shape := by
  cases isNamed <;> cases k <;> decide

lemma countP_of_isSingle (h : t.Shaped) (hkey : key.isSingle t.kind.shape) :
    t.children.countP key.test ≤ 1 := by
  cases key with
  | role r => exact h.fits.single r (by simpa [Key.isSingle] using hkey)
  | kind k => exact h.fits.singleKinds k (by simpa [Key.isSingle] using hkey)

lemma eq_of_test (h : t.Shaped) (hc : c ∈ t.children) {key' : Key}
    (hkey : key.isSingle t.kind.shape) (hkey' : key'.isSingle t.kind.shape) (htest : key.test c)
    (htest' : key'.test c) : key = key' := by
  have hunroled {k : Kind} (hk : (Key.kind k).isSingle t.kind.shape) (hkind : (Key.kind k).test c) :
      c.role = none :=
    h.fits.unroled k (by simpa [Key.isSingle] using hk) c hc (eq_of_beq hkind)
  have hrole {r : Role} (hr : (Key.role r).test c) : c.role = some r := eq_of_beq hr
  cases key with
  | role r =>
    cases key' with
    | role r' => rw [some.inj ((hrole htest).symm.trans (hrole htest'))]
    | kind k => cases (hrole htest).symm.trans (hunroled hkey' htest')
  | kind k =>
    cases key' with
    | role r => cases (hrole htest').symm.trans (hunroled hkey htest)
    | kind k' => rw [(eq_of_beq htest).symm.trans (eq_of_beq htest')]

lemma fits_of_plan (hplan : plan d t = some keys) :
    (keys.map Prod.fst).Nodup ∧ ∀ e ∈ keys, e.1.isSingle t.kind.shape := by
  have hfits : (plan d t).all _ := followingOf_fits (d.nameOf? t).isSome t.kind
  rw [hplan] at hfits
  simpa only [all_some, decide_eq_true_eq, List.all_eq_true] using hfits

lemma followed_of_key (h : t.Shaped) (hplan : plan d t = some keys) {e : Extent}
    (he : (key, e) ∈ keys) (hc : c ∈ t.children) (htest : key.test c) : followed d t c = e := by
  obtain ⟨hnodup, hsingle⟩ := fits_of_plan hplan
  obtain ⟨e', he'⟩ := isSome_iff_exists.mp
    (find?_isSome.mpr ⟨_, he, htest⟩ : (keys.find? fun e => e.1.test c).isSome)
  have hmem := mem_of_find?_eq_some he'
  have htest' : e'.1.test c := find?_some (p := fun e : Key × Extent => e.1.test c) he'
  have hkey := eq_of_test h hc (hsingle e' hmem) (hsingle _ he) htest' htest
  rw [followed, hplan]
  dsimp only
  rw [he', inj_on_of_nodup_map hnodup hmem he hkey]
  rfl

/-- If nothing comes of children that are not followed, all comes of those with a key. -/
lemma perm_of_keys (h : t.Shaped) (hplan : plan d t = some keys)
    {f : Tree → Extent → List β} (hf : ∀ c, f c .nothing = []) :
    (t.children.flatMap fun c => f c (followed d t c)).Perm
      (keys.flatMap fun e => (t.children.find? e.1.test).elim [] fun c => f c e.2) := by
  obtain ⟨hnodup, hsingle⟩ := fits_of_plan hplan
  have hperm := flatMap_perm_of_tests (l := t.children) (f := fun c => f c (followed d t c))
    (keys.map fun e => e.1.test) ?single ?apart ?none
  case single =>
    intro test htest
    obtain ⟨e, he, rfl⟩ := List.mem_map.mp htest
    exact countP_of_isSingle h (hsingle e he)
  case apart =>
    refine pairwise_map.mpr (.imp_of_mem ?_ (pairwise_map.mp hnodup))
    intro e e' he he' hne c hc htest
    by_contra htest'
    exact hne (eq_of_test h hc (hsingle e he) (hsingle e' he') htest (by simpa using htest'))
  case none =>
    intro c _ hnone
    have hfind : keys.find? (fun e => e.1.test c) = none := by
      refine find?_eq_none.mpr fun e he => ?_
      simp [hnone _ (List.mem_map_of_mem he)]
    simp only [followed, hplan, hfind]
    exact hf c
  refine hperm.trans (.of_eq ?_)
  rw [flatMap_map]
  refine flatMap_congr fun e he => ?_
  cases hfound : t.children.find? e.1.test with
  | none => rfl
  | some c =>
    have hextent := followed_of_key h hplan he (mem_of_find?_eq_some hfound) (find?_some hfound)
    simp only [toList_some, flatMap_singleton, hextent, elim_some]

structure ConstantPart (l : Label) : Prop where
  arguments : l.inRole .arguments → l.2 = .argumentList
  body : l.inRole .body ↔ l.2 = .classBody
  other : l.isPlain ∨ ∃ r ∈ [Role.arguments, Role.body], l.inRole r

lemma constantPart_of_admits (h : Kind.enumConstant.shape.admits l) : ConstantPart l := by
  change (if l.inRole .arguments then l.2 == .argumentList
    else if l.inRole .body then l.2 == .classBody else l.isPlain) = true at h
  split at h
  case isTrue hargs =>
    have hkind := eq_of_beq h
    refine ⟨fun _ => hkind, ⟨fun hbody => ?_, fun hclass => ?_⟩, .inr ⟨.arguments, by simp, hargs⟩⟩
    · cases Label.eq_of_inRole hargs hbody
    · cases hkind.symm.trans hclass
  case isFalse hargs =>
    split at h
    case isTrue hbody =>
      exact ⟨fun hrole => absurd hrole hargs, ⟨fun _ => eq_of_beq h, fun _ => hbody⟩,
        .inr ⟨.body, by simp, hbody⟩⟩
    case isFalse hbody =>
      refine ⟨fun hrole => absurd hrole hargs, ⟨fun hrole => absurd hrole hbody, fun hclass => ?_⟩,
        .inl h⟩
      simp [Label.isPlain, hclass, Kind.isBare, Kind.isApart] at h

lemma plain_or_followed {isNamed : Bool} {k : Kind} (hkeys : followingOf isNamed k = some keys)
    (hl : k.shape.admits l) : l.isPlain ∨ ∃ r, (.role r, .all) ∈ keys ∧ l.inRole r := by
  have htype (hk : k.isTypeDeclaration) (hbody : (.role .body, .all) ∈ keys) :
      l.isPlain ∨ ∃ r, (.role r, .all) ∈ keys ∧ l.inRole r := by
    obtain ⟨lacks, hshape⟩ := shape_typeDeclaration hk
    cases hrole : l.inRole .body with
    | true => exact .inr ⟨.body, hbody, hrole⟩
    | false => exact .inl ((typePart_of_admits (hshape ▸ hl)).plain hrole)
  have hdeclaration (bodies : List Kind) (hshape : k.shape = .declaration bodies)
      (hbody : (.role .body, .all) ∈ keys) :
      l.isPlain ∨ ∃ r, (.role r, .all) ∈ keys ∧ l.inRole r := by
    rw [hshape, Shape.declaration] at hl
    cases hrole : l.inRole .body with
    | true => exact .inr ⟨.body, hbody, hrole⟩
    | false => exact .inl (by simpa [hrole] using hl)
  have hcode (roles : List Role) (hshape : k.shape.admits = (Shape.code roles).admits)
      (hroles : ∀ r ∈ roles, (.role r, .all) ∈ keys) :
      l.isPlain ∨ ∃ r, (.role r, .all) ∈ keys ∧ l.inRole r := by
    simp only [hshape, Shape.code, Bool.or_eq_true, Bool.and_eq_true, List.any_eq_true] at hl
    refine hl.imp id ?_
    rintro ⟨⟨r, hr, hrole⟩, _⟩
    exact ⟨r, hroles r hr, hrole⟩
  unfold followingOf at hkeys
  split at hkeys
  case h_1 hform =>
    obtain rfl : k = .importDeclaration := kind_eq_of_form hform
    exact .inl (isPlain_of_admits rfl hl)
  case h_2 hform | h_3 hform | h_4 hform | h_5 hform | h_6 hform =>
    have hk : k.isTypeDeclaration := kind_of_form Kind.isTypeDeclaration hform
    split at hkeys
    · obtain rfl := some.inj hkeys
      exact htype hk (by simp)
    · cases hkeys
  case h_7 hform =>
    obtain rfl : k = .enumConstant := kind_eq_of_form hform
    obtain rfl := some.inj hkeys
    refine (constantPart_of_admits hl).other.imp id ?_
    rintro ⟨r, hr, hrole⟩
    exact ⟨r, by rcases mem_pair.mp hr with rfl | rfl <;> simp, hrole⟩
  case h_9 hform =>
    obtain rfl : k = .annotationTypeElementDeclaration := kind_eq_of_form hform
    obtain rfl := some.inj hkeys
    change (l.inRole .value && !l.2.isOutside || l.isPlain && !l.inRole .parameters) = true at hl
    simp only [Bool.or_eq_true, Bool.and_eq_true] at hl
    rcases hl with ⟨hrole, _⟩ | ⟨hplain, _⟩
    · exact .inr ⟨.value, by simp, hrole⟩
    · exact .inl hplain
  case h_8 hform =>
    obtain rfl : k = .methodDeclaration := kind_eq_of_form hform
    obtain rfl := some.inj hkeys
    exact hdeclaration [.block] rfl (by simp)
  case h_10 hform =>
    obtain rfl : k = .constructorDeclaration := kind_eq_of_form hform
    obtain rfl := some.inj hkeys
    exact hdeclaration [.constructorBody] rfl (by simp)
  case h_11 hform =>
    obtain rfl : k = .compactConstructorDeclaration := kind_eq_of_form hform
    obtain rfl := some.inj hkeys
    exact hdeclaration [.block] rfl (by simp)
  case h_12 hform =>
    obtain rfl : k = .enhancedForStatement := kind_eq_of_form hform
    obtain rfl := some.inj hkeys
    exact hcode [.value, .body] rfl (by simp)
  case h_13 hform =>
    obtain rfl : k = .catchClause := kind_eq_of_form hform
    obtain rfl := some.inj hkeys
    exact hcode [.body] rfl (by simp)
  case h_14 hform =>
    obtain rfl : k = .lambdaExpression := kind_eq_of_form hform
    obtain rfl := some.inj hkeys
    exact hcode [.body] rfl (by simp)
  case h_15 hform | h_16 hform =>
    obtain rfl := some.inj hkeys
    have hadmits : (if l.inRole .arguments then l.2 == .annotationArgumentList
        else if l.inRole .name then [.identifier, .scopedIdentifier].contains l.2
        else l.isPlain) = true := by
      have hk : isAnnotation k := kind_of_form isAnnotation hform
      rcases (Bool.or_eq_true _ _).mp hk with hk | hk <;> rw [eq_of_beq hk] at hl <;> exact hl
    split at hadmits
    case isTrue hrole => exact .inr ⟨.arguments, by simp, hrole⟩
    case isFalse =>
      split at hadmits
      · refine .inl ?_
        rcases (by simpa using hadmits : l.2 = .identifier ∨ l.2 = .scopedIdentifier) with h | h <;>
          simp [Label.isPlain, h, Kind.isBare]
      · exact .inl hadmits
  case h_17 hform =>
    split at hkeys
    · next hbinary =>
      obtain rfl := eq_of_beq hbinary
      obtain rfl := some.inj hkeys
      exact hcode [.left, .right] rfl (by simp)
    · cases hkeys
  case h_18 => cases hkeys

lemma sites_of_unfollowed (h : t.Shaped) (hc : c ∈ t.children) (hne : followed d t c ≠ .all)
    (u : View) : sites d source c (u.enter d source t c) = [] := by
  cases hplan : plan d t with
  | none => exact absurd (by simp only [followed, hplan]) hne
  | some keys =>
    refine sites_of_plain (h.parts c hc) (Label.bare_or_apart (l := c.label) ?_) _
    rcases h.fits.admitted c hc with hcomment | hadmits
    · exact isPlain_of_comment hcomment.kind
    · refine (plain_or_followed hplan hadmits).resolve_right ?_
      rintro ⟨r, hr, hrole⟩
      exact hne (followed_of_key h hplan hr hc hrole)

end

namespace Scene

def enter (o : Scene) (t c : Tree) (u : View) : View := u.enter o.st.declarations o.st.source t c

def trace (o : Scene) (t : Tree) (u : View) (e : Extent) : Trace where
  uses := noticed o.st.declarations o.st.source t e
  sites := if e = .all then Reference.sites o.st.declarations o.st.source t u else []

def own (o : Scene) (t : Tree) (u : View) : Trace where
  uses := if isAnnotation t.kind then (t.child? .name).toList else []
  sites := if Spot.isSite o.st.declarations ⟨t, u⟩ then [⟨t, u⟩] else []

def inner (o : Scene) (t : Tree) (u : View) : Trace :=
  .sum t.children fun c => o.trace c (o.enter t c u) .all

def partAt (o : Scene) (t : Tree) (u : View) (key : Key) (e : Extent) : Trace :=
  (t.children.find? key.test).elim {} fun c => o.trace c (o.enter t c u) e

/-- What the walk over the children does that are walked according to a plan. -/
def planned (o : Scene) (t : Tree) (u : View) (keys : List (Key × Extent)) : Trace :=
  .sum keys fun e => o.partAt t u e.1 e.2

section

variable {keys : List (Key × Extent)}

lemma planned_nil : o.planned t u [] = {} := rfl

lemma planned_cons (key : Key) (e : Extent) :
    o.planned t u ((key, e) :: keys) = o.partAt t u key e ++ o.planned t u keys := rfl

lemma own_of_silent (hmarked : isAnnotation t.kind = false)
    (hreported : isReported o.st.declarations t = false) : o.own t u = {} := by
  simp [own, hmarked, Spot.isSite, hreported]

lemma inner_refines (hall : ∀ c, followed o.st.declarations t c = .all) :
    (o.own t u ++ o.inner t u).Refines (o.trace t u .all) where
  uses := by
    refine .of_eq ?_
    change _ = noticed _ _ _ _
    rw [noticed_eq]
    simp only [Extent.into, hall, true_and]
    rfl
  sites := .of_eq (sites_eq t u).symm

lemma refines_of_plan (h : t.Shaped) (hplan : plan o.st.declarations t = some keys) :
    (o.own t u ++ o.planned t u keys).Refines (o.trace t u .all) := by
  have hparts {β : Type} {f : Trace → List β}
      (hnone : ∀ c, f (o.trace c (o.enter t c u) .nothing) = []) (hempty : f {} = []) :
      (keys.flatMap fun e => f (o.partAt t u e.1 e.2)).Perm (t.children.flatMap fun c =>
        f (o.trace c (o.enter t c u) (followed o.st.declarations t c))) := by
    refine .trans (.of_eq (flatMap_congr fun e _ => ?_)) (perm_of_keys
      (f := fun c e => f (o.trace c (o.enter t c u) e)) h hplan hnone).symm
    unfold partAt
    cases t.children.find? e.1.test with
    | none => exact hempty
    | some c => rfl
  refine ⟨?uses, ?sites⟩
  case uses =>
    change List.Perm _ (noticed _ _ _ _)
    rw [noticed_eq]
    simp only [Extent.into, true_and]
    exact .append_left _ (hparts (fun c => noticed_nothing c) rfl)
  case sites =>
    change List.Perm _ (Reference.sites _ _ _ _)
    rw [sites_eq]
    refine .append_left _ ((hparts (fun c => rfl) rfl).trans
      (.of_eq (flatMap_congr fun c hc => ?_)))
    by_cases hall : followed o.st.declarations t c = .all
    · exact if_pos hall
    · exact (if_neg hall).trans (sites_of_unfollowed h hc hall u).symm

end

end Scene

/-- Whether trees of a kind only hold their children, all of which are followed. -/
def isPassing (k : Kind) : Bool :=
  isThrough k && ! isAnnotation k && (followingOf true k).isNone &&
    !List.contains [.methodInvocation, .explicitConstructorInvocation] k

lemma through_of_passing (h : isPassing k) : isThrough k := by
  simp only [isPassing, Bool.and_eq_true] at h
  exact h.1.1.1

lemma passing_of_other (h : Form.ofKind k = .other) (hne : k ≠ .binaryExpression) :
    isPassing k := by
  revert h hne
  cases k <;> decide

section

variable (h : isPassing t.kind)
include h

lemma followed_of_passing {d : Declarations} (c : Tree) : followed d t c = .all := by
  have hnone : ∀ k, isPassing k → ∀ isNamed, followingOf isNamed k = none := by
    intro k hk isNamed
    revert hk
    cases isNamed <;> cases k <;> decide
  rw [followed, plan, hnone t.kind h]

lemma Scene.passing_refines : (o.inner t u).Refines (o.trace t u .all) := by
  have hinner := inner_refines (o := o) (u := u) (followed_of_passing h)
  simp only [isPassing, isThrough, Bool.and_eq_true, Bool.not_eq_true', Bool.or_eq_false_iff] at h
  rw [own_of_silent h.1.1.2] at hinner
  · exact hinner
  · simp_all [isReported]

end

def Walk.reportLinks (links : List Link) : Walk Unit :=
  links.forM fun link => do
    if let some name := link.tree.child? .name then
      let outcome ← link.call
      emitCalls .methodCall outcome.calls name

/-- The walks that the meaning of a tree stands for do what its trace says. The calls of a chain are
reported at the place of the last one, and their parts are visited after that. -/
structure Traced (o : Scene) (κ : Contexts) (t : Tree) (u : View) (m : Meaning) :
    Prop where
  visit : Acts o κ u (o.trace t u .all) m.visit
  operands : Acts o κ u (o.trace t u .all) (m.operands.forM id)
  links : t.kind = .methodInvocation → ∃ calls rest,
    (∀ v : View, v.setting o.st = u.setting o.st →
      Acts o κ v { sites := calls } (reportLinks m.links)) ∧
    Acts o κ u rest (visitLinks m.links) ∧
    (({ sites := calls } : Trace) ++ rest).Refines (o.trace t u .all)
  noLinks : t.kind ≠ .methodInvocation → m.links = []

/-- The meanings of the children of a tree of the unit. Only a unit can be empty. -/
structure Rooted (o : Scene) (t : Tree) (cs : Sense) : Prop where
  shaped : t.Shaped
  trees : cs.map Prod.fst = t.children
  within : t.kind = .program ∨ t.Within o.text
  stands : Stands o.text t
  sense : SenseOf o.st.source t cs
  elsewhere : ∀ ctx : Context, ∃ κ,
    SoundParts o.binding o.st.source κ (ctx.declaring (declared o.st.source t)) cs

/-- A tree and all of its parts are traced, whatever surrounds it. -/
inductive TracedAt (o : Scene) : SensePart → Prop where
  | mk {t : Tree} {m : Decorated Meaning} (hrooted : Rooted o t m.parts)
      (hmeaning : ∀ κ u, (∀ s ∈ spots o.st.declarations o.st.source t u, o.holds s) →
        SoundAt o.binding o.st.source κ u.context (t, m) → Traced o κ t u m.value)
      (hparts : ∀ c ∈ m.parts, TracedAt o c) : TracedAt o (t, m)

structure TracedParts (o : Scene) (t : Tree) (cs : Sense) : Prop extends Rooted o t cs where
  parts : ∀ c ∈ cs, TracedAt o c

/-- The parts of a tree that `u` surrounds are traced, and those that are visited from `v` are
sound there. -/
structure Stage (o : Scene) (κ : Contexts) (t : Tree) (cs : Sense) (u v : View) :
    Prop extends TracedParts o t cs where
  holds : ∀ s ∈ spots o.st.declarations o.st.source t u, o.holds s
  sound : SoundParts o.binding o.st.source κ v.context cs

section

variable {c : SensePart}

lemma TracedAt.meaning (h : TracedAt o c)
    (hholds : ∀ s ∈ spots o.st.declarations o.st.source c.1 u, o.holds s)
    (hsound : SoundAt o.binding o.st.source κ u.context c) : Traced o κ c.1 u c.2.value := by
  cases h with
  | mk _ hmeaning _ => exact hmeaning κ u hholds hsound

lemma TracedAt.inner (h : TracedAt o c) : TracedParts o c.1 c.2.parts := by
  cases h with
  | mk hrooted _ hparts => exact ⟨hrooted, hparts⟩

namespace Rooted

section

variable (h : Rooted o t cs)
include h

lemma proper (hkind : t.kind ≠ .program) : t.Within o.text :=
  h.within.resolve_left hkind

lemma mem_children (hc : c ∈ cs) : c.1 ∈ t.children :=
  h.trees ▸ List.mem_map_of_mem hc

lemma find?_key (key : Key) :
    (cs.find? fun c => key.test c.1).map Prod.fst = t.children.find? key.test := by
  rw [← h.trees, find?_map]
  rfl

lemma child? (r : Role) : (cs.child? r).map Prod.fst = t.child? r :=
  h.find?_key (.role r)

lemma covers (hkind : t.kind ≠ .program)
    (hfragment : t.kind.isFragment = false) : o.Covers (o.st.lines.span t.start t.stop) :=
  ⟨_, (h.proper hkind).inked hfragment, rfl⟩

lemma partAt (key : Key) (e : Extent) :
    o.partAt t u key e = (cs.find? fun c => key.test c.1).elim {} fun c =>
      o.trace c.1 (o.enter t c.1 u) e := by
  rw [Scene.partAt, ← h.find?_key key]
  cases cs.find? fun c => key.test c.1 <;> rfl

lemma partIn (r : Role) (e : Extent) : o.partAt t u (.role r) e =
    (cs.child? r).elim {} fun c => o.trace c.1 (o.enter t c.1 u) e :=
  h.partAt (.role r) e

end

end Rooted

namespace Stage

lemma holds_part (h : Stage o κ t cs u v) (hc : c ∈ cs) :
    ∀ s ∈ spots o.st.declarations o.st.source c.1 (o.enter t c.1 u), o.holds s :=
  fun s hs => h.holds s (mem_spots_of_child (h.mem_children hc) hs)

section

variable (h : Stage o κ t cs u v) (hc : c ∈ cs)
  (he : (o.enter t c.1 u).place o.st = (v.within t).place o.st)
include h hc he

lemma sound_part : SoundAt o.binding o.st.source κ (o.enter t c.1 u).context c := by
  have hctx : (o.enter t c.1 u).context = v.context := congrArg (·.context) he
  rw [hctx]
  exact h.sound c hc

lemma part : Traced o κ c.1 (o.enter t c.1 u) c.2.value :=
  (h.parts c hc).meaning (h.holds_part hc) (h.sound_part hc he)

lemma inner (hthrough : isThrough c.1.kind) :
    Stage o κ c.1 c.2.parts (o.enter t c.1 u) (o.enter t c.1 u) where
  toTracedParts := (h.parts c hc).inner
  holds := h.holds_part hc
  sound := by
    refine (h.sound_part hc he).parts ?_
    simp only [isThrough, Bool.not_eq_true', Bool.or_eq_false_iff] at hthrough
    exact hthrough.1.1.2

end

end Stage

end

namespace Acts

variable {p list c : SensePart}

lemma part (h : Stage o κ t cs u v) (hc : c ∈ cs)
    (he : (o.enter t c.1 u).place o.st = (v.within t).place o.st) :
    Acts o κ (v.within t) (o.trace c.1 (o.enter t c.1 u) .all) c.2.value.visit :=
  .moved (h.part hc he).visit he

lemma named_refines (h : Rooted o t cs) :
    (Trace.sum cs.named fun c => o.trace c.1 (o.enter t c.1 u) .all).Refines (o.inner t u) := by
  have hsum {β : Type} (f : Trace → List β) :
      (t.children.flatMap fun c => f (o.trace c (o.enter t c u) .all)) =
        cs.flatMap fun c => f (o.trace c.1 (o.enter t c.1 u) .all) := by
    rw [← h.trees, flatMap_map]
  have hliteral (c : SensePart) (hc : c ∈ cs) (hnamed : c.1.isNamed = false) :
      c.1.Shaped ∧ c.1.kind = .literal :=
    ⟨h.shaped.parts c.1 (h.mem_children hc), by simpa [isNamed] using hnamed⟩
  refine ⟨.of_eq (.trans ?_ (hsum Trace.uses).symm), .of_eq (.trans ?_ (hsum Trace.sites).symm)⟩
  · refine flatMap_filter_of_nil fun c hc hnamed => ?_
    obtain ⟨hshaped, hkind⟩ := hliteral c hc hnamed
    change noticed _ _ _ _ = []
    rw [noticed_eq, hshaped.children_of_atom (hkind ▸ rfl), hkind]
    rfl
  · refine flatMap_filter_of_nil fun c hc hnamed => ?_
    obtain ⟨hshaped, hkind⟩ := hliteral c hc hnamed
    exact sites_of_plain hshaped (.inl (hkind ▸ rfl)) _

lemma visitAll (h : Stage o κ t cs u v)
    (he : ∀ c ∈ t.children, (o.enter t c u).place o.st = (v.within t).place o.st) :
    Acts o κ v (o.inner t u) (Walk.visitAll t cs) := by
  refine .weaken (.inside (.forM fun c hc => ?_)) (named_refines h.toRooted)
  have hmem := Valued.mem_of_mem_named hc
  exact .part h hmem (he _ (h.mem_children hmem))

lemma visitPassing (h : Stage o κ t cs u u) (hpass : isPassing t.kind) :
    Acts o κ u (o.trace t u .all) (Walk.visitAll t cs) :=
  .weaken (.visitAll h fun c _ => place_enter_through (through_of_passing hpass) c u)
    (Scene.passing_refines hpass)

lemma visitIn (h : Stage o κ t cs u v) (r : Role)
    (he : ∀ c, t.child? r = some c → (o.enter t c u).place o.st = (v.within t).place o.st) :
    Acts o κ v (o.partAt t u (.role r) .all) (Walk.visitIn t cs r) := by
  rw [h.partIn, ← h.child? r] at *
  unfold Walk.visitIn
  cases hc : cs.child? r with
  | none => exact .pure ()
  | some c => exact .inside (.part h (Valued.mem_of_child? hc) (he c.1 (hc ▸ rfl)))

section

variable (h : Stage o κ t cs u v)
include h

lemma visitInside (hc : c ∈ cs) (hpass : isPassing c.1.kind)
    (he : (o.enter t c.1 u).place o.st = (v.within t).place o.st) :
    Acts o κ v (o.trace c.1 (o.enter t c.1 u) .all) (Walk.visitInside t (some c)) :=
  .inside (.moved (.visitPassing (h.inner hc he (through_of_passing hpass)) hpass) he)

lemma visitInsideAt (key : Key) (hpart : ∀ c ∈ t.children, key.test c →
      isPassing c.kind ∧ (o.enter t c u).place o.st = (v.within t).place o.st) :
    Acts o κ v (o.partAt t u key .all) (Walk.visitInside t (cs.find? fun c => key.test c.1)) := by
  rw [h.partAt]
  cases hc : cs.find? fun c => key.test c.1 with
  | none => exact .pure ()
  | some c =>
    have hmem := mem_of_find?_eq_some hc
    obtain ⟨hpass, he⟩ := hpart c.1 (h.mem_children hmem)
      (find?_some (p := fun c : SensePart => key.test c.1) hc)
    exact .visitInside h hmem hpass he

lemma visitModifiers (he : ∀ c ∈ t.children, c.kind = .modifiers →
      (o.enter t c u).place o.st = (v.within t).place o.st) :
    Acts o κ v (o.partAt t u (.kind .modifiers) .all) (Walk.visitModifiers t cs) := by
  refine .visitInsideAt h (.kind .modifiers) fun c hc htest => ?_
  have hkind : c.kind = .modifiers := eq_of_beq htest
  exact ⟨by rw [hkind]; decide, he c hc hkind⟩

end

lemma parameterModifiers (h : Stage o κ p.1 p.2.parts u u)
    (hkind : p.1.kind = .formalParameter ∨ p.1.kind = .spreadParameter ∨
      p.1.kind = .catchFormalParameter) :
    Acts o κ u (o.trace p.1 u .modifiers) (Walk.visitModifiers p.1 p.2.parts) := by
  have hthrough : isThrough p.1.kind := by
    rcases hkind with hkind | hkind | hkind <;> rw [hkind] <;> rfl
  have hsingle : (Key.kind .modifiers).isSingle p.1.kind.shape := by
    rcases hkind with hkind | hkind | hkind <;> rw [hkind] <;> rfl
  refine .weaken (.visitModifiers h fun c _ _ => place_enter_through hthrough c u) ?_
  have hnoticed : noticed o.st.declarations o.st.source p.1 .modifiers =
      (p.1.children.find? (Key.kind .modifiers).test).toList.flatMap fun c =>
        noticed o.st.declarations o.st.source c .all := by
    rw [noticed_eq, if_neg (by simp), nil_append,
      ← filter_eq_find? (countP_of_isSingle h.shaped hsingle),
      ← flatMap_filter_of_nil fun c _ hc => ?_]
    · refine flatMap_congr fun c hc => ?_
      rw [Extent.into, if_pos (show c.kind == .modifiers from (mem_filter.mp hc).2)]
    · rw [Extent.into, if_neg (by simpa [Key.test] using hc)]
      exact noticed_nothing c
  unfold Scene.partAt
  cases hc : p.1.children.find? (Key.kind .modifiers).test with
  | none =>
    refine ⟨.of_eq ?_, .refl _⟩
    rw [hc] at hnoticed
    exact hnoticed.symm
  | some c =>
    rw [hc] at hnoticed
    have hmem := mem_of_find?_eq_some hc
    have htest : c.kind == .modifiers := find?_some (p := (Key.kind .modifiers).test) hc
    refine ⟨.of_eq ?_, .of_eq ?_⟩
    · exact (flatMap_singleton ..).symm.trans hnoticed.symm
    · exact sites_of_plain (h.shaped.parts c hmem) (.inl (by rw [eq_of_beq htest]; rfl)) _

lemma kind_of_parameter {p : Tree} (h : (Parameter.ofTree? source p).isSome) :
    p.kind = .formalParameter ∨ p.kind = .spreadParameter := by
  obtain ⟨parameter, hparameter⟩ := isSome_iff_exists.mp h
  unfold Parameter.ofTree? at hparameter
  split at hparameter
  · next hkind => exact .inl hkind
  · next hkind => exact .inr hkind
  · cases hparameter

lemma parameter (h : Stage o κ t cs u v) (hlist : list ∈ cs) (hthrough : isThrough list.1.kind)
    (he : (o.enter t list.1 u).place o.st = (v.within t).place o.st) (hp : p ∈ list.2.parts)
    (hparameter : (Parameter.ofTree? o.st.source p.1).isSome) :
    Acts o κ v (o.trace p.1 (o.enter list.1 p.1 (o.enter t list.1 u)) .modifiers)
      (Walk.inside t (Walk.inside list.1 (Walk.visitModifiers p.1 p.2.parts))) := by
  have hkind := kind_of_parameter hparameter
  have hthrough' : isThrough p.1.kind := by rcases hkind with h | h <;> rw [h] <;> rfl
  have he' : (o.enter list.1 p.1 (o.enter t list.1 u)).place o.st =
      ((o.enter t list.1 u).within list.1).place o.st := place_enter_through hthrough p.1 _
  have hinner := (h.inner hlist he hthrough).inner hp he' hthrough'
  have hmodifiers := parameterModifiers hinner (hkind.imp_right .inl)
  exact .inside (.moved (.inside (.moved hmodifiers he')) he)

lemma parameters_refine (h : Rooted o list.1 list.2.parts) :
    (Trace.sum (list.2.parts.filter fun c => (Parameter.ofTree? o.st.source c.1).isSome) fun c =>
      o.trace c.1 (o.enter list.1 c.1 u) .modifiers).Refines (o.trace list.1 u .parameters) where
  uses := by
    refine .of_eq (Eq.symm ?_)
    change noticed _ _ _ _ = _
    rw [noticed_eq, if_neg (by simp), nil_append, ← h.trees, flatMap_map,
      ← flatMap_filter_of_nil fun c _ hc => ?_]
    · refine flatMap_congr fun c hc => ?_
      rw [Extent.into, if_pos (mem_filter.mp hc).2]
      rfl
    · rw [Extent.into, if_neg (Bool.eq_false_iff.mp hc)]
      exact noticed_nothing c.1
  sites := .of_eq (flatMap_eq_nil_iff.mpr fun _ _ => rfl)

end Acts

end Xref.Reference

