import Xref.Proofs.Syntax.Derivation
import Xref.Proofs.Syntax.Inking

/-!
# Units are shaped

How many trees with a given label a rule gives can be bounded by looking at the rule. A rule whose
nodes fit their shapes by these bounds reads shaped trees only. All rules of the grammar are of that
kind, so units are shaped.
-/
open List Bool String

namespace Xref.Syntax

open Tree

/-- Bounds for how many trees of a list have a label that passes a test. An upper bound of two or
more says nothing. -/
structure Bounds where
  least : (Label → Bool) → Nat
  most : (Label → Bool) → Nat

def Tree.count (test : Label → Bool) (trees : List Tree) : Nat :=
  trees.countP fun t => test t.label

variable {trees xs ys : List Tree} {N : Type} {kind : Kind} {held : Bounds} {t : Token}
  {ts rest : List Token} {modes : List Mode} {cs source : List Char} {unit : Tree}

namespace Bounds

def nothing : Bounds := ⟨fun _ => 0, fun _ => 0⟩

def never : Bounds := ⟨fun _ => 2, fun _ => 0⟩

def one (kinds : List Kind) : Bounds where
  least test := if kinds.all fun k => test (none, k) then 1 else 0
  most test := if kinds.any fun k => test (none, k) then 1 else 0

def seq (a b : Bounds) : Bounds :=
  ⟨fun test => a.least test + b.least test, fun test => a.most test + b.most test⟩

def alt (a b : Bounds) : Bounds :=
  ⟨fun test => min (a.least test) (b.least test), fun test => max (a.most test) (b.most test)⟩

def many (a : Bounds) : Bounds := ⟨fun _ => 0, fun test => if a.most test = 0 then 0 else 2⟩

def role (r : Role) (a : Bounds) : Bounds :=
  ⟨fun test => a.least fun l => test (some r, l.2), fun test => a.most fun l => test (some r, l.2)⟩

def isOne (b : Bounds) (test : Kind → Bool) : Bool :=
  b.most (fun l => !(l.1 == none && test l.2)) == 0 && b.most (fun _ => true) < 2 &&
    0 < b.least fun _ => true

def isFew (b : Bounds) (k : Kind) : Bool :=
  b.most (Label.ofKind k) == 0 || b.most (fun _ => true) < 2

def fit (b : Bounds) (kind : Kind) : Bool :=
  b.most (fun l => !kind.shape.admits l) == 0 &&
    kind.shape.single.all (fun r => b.most (Label.inRole r) < 2) &&
    kind.shape.singleKinds.all (fun k => b.most (Label.ofKind k) < 2) &&
    kind.shape.singleKinds.all (fun k => b.most (fun l => l.ofKind k && l.1 != none) == 0) &&
    (!kind.shape.singleType || b.most (fun l => l.2.isType) < 2) &&
    kind.shape.required.all fun r => 0 < b.least (Label.inRole r)

structure Hold (b : Bounds) (trees : List Tree) : Prop where
  least : ∀ test, b.least test ≤ Tree.count test trees
  most : ∀ test, b.most test < 2 → Tree.count test trees ≤ b.most test

variable {a b : Bounds}

lemma Hold.nothing : Bounds.nothing.Hold [] := ⟨fun _ => Nat.le_refl 0, fun _ _ => Nat.le_refl 0⟩

lemma Hold.one {kinds : List Kind} {t : Tree} (hrole : t.role = none) (hkind : t.kind ∈ kinds) :
    (Bounds.one kinds).Hold [t] := by
  have hlabel : t.label = (none, t.kind) := by rw [label, hrole]
  have hcount (test : Label → Bool) :
      Tree.count test [t] = if test (none, t.kind) then 1 else 0 := by
    simp [Tree.count, countP_singleton, hlabel]
  refine ⟨fun test => ?_, fun test _ => ?_⟩ <;> rw [hcount] <;> dsimp only [Bounds.one]
  · split
    case isTrue hall => exact Nat.le_of_eq (if_pos (all_eq_true.mp hall _ hkind)).symm
    case isFalse => exact Nat.zero_le _
  · by_cases htest : test (none, t.kind)
    · exact Nat.le_of_eq ((if_pos htest).trans (if_pos (any_eq_true.mpr ⟨_, hkind, htest⟩)).symm)
    · rw [if_neg htest]
      exact Nat.zero_le _

lemma Hold.seq (ha : a.Hold xs) (hb : b.Hold ys) : (a.seq b).Hold (xs ++ ys) := by
  have hcount (test : Label → Bool) :
      Tree.count test (xs ++ ys) = Tree.count test xs + Tree.count test ys := countP_append
  refine ⟨fun test => ?_, fun test hmost => ?_⟩ <;> rw [hcount]
  · exact Nat.add_le_add (ha.least test) (hb.least test)
  · have hsum : a.most test + b.most test < 2 := hmost
    exact Nat.add_le_add (ha.most test (by omega)) (hb.most test (by omega))

lemma Hold.altLeft (h : a.Hold trees) (b : Bounds) : (a.alt b).Hold trees where
  least test := Nat.le_trans (Nat.min_le_left _ _) (h.least test)
  most test hmost :=
    Nat.le_trans (h.most test (Nat.lt_of_le_of_lt (Nat.le_max_left _ _) hmost))
      (Nat.le_max_left _ _)

lemma Hold.altRight (h : b.Hold trees) (a : Bounds) : (a.alt b).Hold trees where
  least test := Nat.le_trans (Nat.min_le_right _ _) (h.least test)
  most test hmost :=
    Nat.le_trans (h.most test (Nat.lt_of_le_of_lt (Nat.le_max_right _ _) hmost))
      (Nat.le_max_right _ _)

lemma Hold.manyNone (a : Bounds) : a.many.Hold [] :=
  ⟨fun _ => Nat.zero_le _, fun _ _ => Nat.zero_le _⟩

lemma Hold.manyMore (ha : a.Hold xs) (hmore : a.many.Hold ys) : a.many.Hold (xs ++ ys) := by
  refine ⟨fun _ => Nat.zero_le _, fun test hmost => ?_⟩
  have hzero : a.most test = 0 := by
    by_contra hne
    simp [many, hne] at hmost
  have hxs := ha.most test (by omega)
  have hys := hmore.most test hmost
  simp only [many, hzero, if_true] at hys ⊢
  rw [Tree.count, countP_append]
  rw [hzero] at hxs
  exact Nat.add_le_add hxs hys

lemma Hold.role (h : a.Hold trees) (r : Role) : (a.role r).Hold (trees.map (inRole r)) := by
  have hcount (test : Label → Bool) : Tree.count test (trees.map (inRole r)) =
      Tree.count (fun l => test (some r, l.2)) trees := by
    simp only [Tree.count, countP_map, Function.comp_def, label_inRole]
    rfl
  refine ⟨fun test => ?_, fun test hmost => ?_⟩ <;> rw [hcount]
  · exact h.least _
  · exact h.most _ hmost

lemma Hold.forall_mem {test : Label → Bool} (h : a.Hold trees) (hnone : a.most test = 0) :
    ∀ t ∈ trees, test t.label = false := by
  have hcount : trees.countP (fun t => test t.label) = 0 := by
    have := h.most test (by omega)
    rwa [hnone, Nat.le_zero] at this
  exact fun t ht => by simpa using countP_eq_zero.mp hcount t ht

lemma Hold.isOne {test : Kind → Bool} (h : a.Hold trees) (hone : a.isOne test) :
    ∃ t, trees = [t] ∧ t.role = none ∧ test t.kind := by
  simp only [Bounds.isOne, and_eq_true, beq_iff_eq, decide_eq_true_eq] at hone
  obtain ⟨⟨hlabel, hmost⟩, hleast⟩ := hone
  have hcount : Tree.count (fun _ => true) trees = trees.length := congrFun countP_true trees
  have hlength : trees.length = 1 := by
    have hle := h.most _ hmost
    have hge := h.least fun _ => true
    omega
  obtain ⟨t, rfl⟩ := length_eq_one_iff.mp hlength
  have ht := h.forall_mem hlabel t (mem_singleton_self t)
  simp only [not_eq_false', and_eq_true, beq_iff_eq] at ht
  exact ⟨t, rfl, ht⟩

lemma Hold.fits (h : a.Hold trees) (hfit : a.fit kind)
    (hlast : ∀ k ∈ kind.shape.last, trees.Pairwise fun t _ => t.kind ≠ k) : Fits kind trees := by
  simp only [fit, and_eq_true, beq_iff_eq, all_eq_true, decide_eq_true_eq] at hfit
  obtain ⟨⟨⟨⟨⟨hadmits, hsingle⟩, hkinds⟩, hroles⟩, htypes⟩, hrequired⟩ := hfit
  refine ⟨fun c hc => .inr ?_, fun r hr => ?_, fun k hk => ?_, fun k hk c hc hkind => ?_,
    fun htype => ?_,
    fun k hk => (hlast k hk).imp fun hne h => absurd h hne, fun r hr => ?_⟩
  · simpa using h.forall_mem hadmits c hc
  · exact Nat.le_trans (h.most _ (hsingle r hr)) (Nat.le_of_lt_succ (hsingle r hr))
  · exact Nat.le_trans (h.most _ (hkinds k hk)) (Nat.le_of_lt_succ (hkinds k hk))
  · have hrole := h.forall_mem (hroles k hk) c hc
    simpa [Label.ofKind, label, hkind] using hrole
  · simp only [htype, Bool.not_true, Bool.false_or, decide_eq_true_eq] at htypes
    exact Nat.le_trans (h.most _ htypes) (Nat.le_of_lt_succ htypes)
  · exact countP_pos_iff.mp (Nat.lt_of_lt_of_le (hrequired r hr) (h.least _))

lemma Hold.pairwise_ne {k : Kind} (h : a.Hold trees) (hfew : a.isFew k) :
    trees.Pairwise fun t _ => t.kind ≠ k := by
  simp only [Bounds.isFew, or_eq_true, beq_iff_eq, decide_eq_true_eq] at hfew
  rcases hfew with hnone | hone
  · refine pairwise_of_forall_mem_list fun t ht _ _ hkind => ?_
    have hother := h.forall_mem hnone t ht
    simp [Label.ofKind, label, hkind] at hother
  · have hlength : trees.length ≤ 1 := by
      have hcount : Tree.count (fun _ => true) trees = trees.length := congrFun countP_true trees
      have hle := h.most _ hone
      omega
    cases trees with
    | nil => exact .nil
    | cons t rest =>
      obtain rfl : rest = [] := by simpa using hlength
      exact pairwise_singleton _ t

lemma Hold.of_label {t t' : Tree} (h : a.Hold [t]) (hlabel : t'.label = t.label) : a.Hold [t'] := by
  have hcount (test : Label → Bool) : Tree.count test [t'] = Tree.count test [t] := by
    simp only [Tree.count, countP_singleton, hlabel]
  exact ⟨fun test => hcount test ▸ h.least test, fun test hmost => hcount test ▸ h.most test hmost⟩

end Bounds

namespace Rule

/-- Whether a rule makes a node of its own around the trees in the place of `hole`. -/
def isNode : Rule N → Bool
  | node _ _ => true
  | alt a b => a.isNode && b.isNode
  | _ => false

def readsMark (test : String → Bool) : Rule N → Bool
  | symbol text .literal => test text
  | alt a b => a.readsMark test && b.readsMark test
  | notAhead empty => true
  | _ => false

variable (kinds : N → List Kind)

/-- Bounds for the trees that a rule gives, if those in the place of `hole` are within `held` and
what is read for `n` is one tree of the kinds `kinds n`. -/
def bounds (held : Bounds) : Rule N → Bounds
  | notAhead empty => .never
  | empty | notWord _ | notAhead _ | atEnd | holeHas _ => .nothing
  | symbol _ kind | keyword _ kind | word kind | literal kind | node kind _ => .one [kind]
  | joined _ | angle => .one [.literal]
  | seq a b => (a.bounds held).seq (b.bounds held)
  | alt a b | chain a b => (a.bounds held).alt (b.bounds held)
  | many a => (a.bounds held).many
  | role r a => (a.bounds held).role r
  | call n => .one (kinds n)
  | hole => held
  | share a b => b.bounds (a.bounds held)
  | operators (seq first _) => (first.bounds held).alt (.one chainKinds)
  | operators _ => .never

/-- Whether a rule reads operators with operands, tests and increments. -/
def chains (held : Bounds) : Rule N → Bool
  | many a => a.chains held
  | alt a b => a.chains held && b.chains held
  | seq a b =>
    a.readsMark (fun text => !(["++", "--"].contains text)) &&
        (b.bounds kinds held).isOne (fun k => !k.isOutside) ||
      a.chains held && b.chains held
  | node .instanceofExpression _ => true
  | symbol text .literal => ["++", "--"].contains text
  | notAhead empty => true
  | _ => false

/-- Whether no tree comes after one of a kind. -/
def endsWith (held : Bounds) (k : Kind) : Rule N → Bool
  | seq a b =>
    (a.bounds kinds held).most (Label.ofKind k) == 0 && b.endsWith held k ||
      a.endsWith held k && (b.bounds kinds held).most (fun _ => true) == 0
  | alt a b => a.endsWith held k && b.endsWith held k
  | rule => (rule.bounds kinds held).isFew k

def leafFits (kind : Kind) : Bool := kind.shape.required.isEmpty && kind != .genericType

/-- Whether all nodes that a rule makes fit their shapes. -/
def fits (held : Bounds) : Rule N → Bool
  | symbol text kind => leafFits kind && kind != .identifier && isSolid text
  | literal kind => leafFits kind && !kind.isSolid
  | keyword _ kind | word kind => leafFits kind
  | joined parts => isSolid (String.join parts)
  | seq a b | alt a b => a.fits held && b.fits held
  | many a | role _ a => a.fits held
  | node kind a =>
    a.fits held && !kind.isAtom && (a.bounds kinds held).fit kind &&
      kind.shape.last.all fun k => a.endsWith kinds held k
  | share a b => a.fits held && b.fits (a.bounds kinds held)
  | chain a b => a.fits held && b.isNode && b.fits ((a.bounds kinds held).alt (b.bounds kinds held))
  | operators (seq first rest) =>
    first.fits held && rest.fits held &&
      (first.bounds kinds held).isOne (fun k => !k.isOutside) && rest.chains kinds held
  | operators _ => false
  | _ => true

variable {kinds}

lemma bounds_of_isNode {b : Rule N} (h : b.isNode) (held held' : Bounds) :
    b.bounds kinds held = b.bounds kinds held' := by
  fun_induction isNode b with
  | case1 => rfl
  | case2 a b iha ihb =>
    simp only [and_eq_true] at h
    simp only [bounds, iha h.1, ihb h.2]
  | case3 => cases h

lemma fits_of_leafFits (h : leafFits kind) : Fits kind [] where
  admitted c hc := by cases hc
  single r _ := Nat.zero_le 1
  singleKinds k _ := Nat.zero_le 1
  unroled k _ c hc := by cases hc
  singleType _ := Nat.zero_le 1
  last k _ := .nil
  required r hr := by
    rw [List.isEmpty_iff.mp ((and_eq_true _ _).mp h).1] at hr
    cases hr

lemma ne_genericType (h : leafFits kind) : kind ≠ .genericType :=
  bne_iff_ne.mp ((and_eq_true _ _).mp h).2

lemma shaped_leaf (hfits : leafFits kind) (htext : Lettered kind t.text) : (t.leaf kind).Shaped :=
  .leaf none t.range (fits_of_leafFits hfits) htext

lemma hold_leaf (kind : Kind) (t : Token) : (Bounds.one [kind]).Hold [t.leaf kind] :=
  .one rfl (mem_singleton_self kind)

end Rule

lemma Lettered.of_word {text : String} (h : isIdentifier text) (hwhole : kind ≠ .genericType) :
    Lettered kind text :=
  ⟨fun _ => h, fun _ => isSolid_of_isIdentifier h, hwhole⟩

def Token.Spelled (ts : List Token) : Prop := ∀ t ∈ ts, t.kind = .word → isIdentifier t.text

namespace Token.Spelled

lemma tail (h : Spelled (t :: ts)) : Spelled ts := fun s hs => h s (mem_cons_of_mem t hs)

lemma append (hrest : Spelled rest) (hts : Spelled ts) : Spelled (rest ++ ts) :=
  forall_mem_append.mpr ⟨hrest, hts⟩

end Token.Spelled

namespace Rule

variable {g : N → Rule N} {kinds : N → List Kind}
variable {text : String} {rule a : Rule N}

lemma spelled_splitAngle {tree : Tree}
    (h : t.splitAngle = some (tree, rest)) : Token.Spelled rest := by
  unfold Token.splitAngle at h
  split at h
  · cases h
    split
    · exact fun s hs => by cases hs
    · intro s hs hkind
      rw [mem_singleton.mp hs] at hkind
      cases hkind
  · cases h

lemma spelled_dropText
    (h : t.dropText text = some rest) (ht : t.kind = .word → isIdentifier t.text) :
    Token.Spelled rest := by
  unfold Token.dropText at h
  split at h
  · cases h
    exact fun s hs => by cases hs
  · split at h
    · next hword =>
      cases h
      intro s hs hkind
      rw [mem_singleton.mp hs] at hkind ⊢
      simp only [and_eq_true, beq_iff_eq] at hword
      obtain ⟨first, others, htext, _, hothers⟩ := isIdentifier_iff.mp (ht hword.1)
      rw [isIdentifier_iff, toList_ofList]
      -- what remains is a word only if it begins like one
      cases hdrop : t.text.toList.drop text.length with
      | nil => simp [hdrop] at hkind
      | cons c cs =>
        have hstart : Text.isIdentifierStart c := by
          by_contra hstart
          simp [hdrop, hstart] at hkind
        have hcs : others.drop text.length = cs := by
          have htail := congrArg List.tail hdrop
          rwa [tail_drop, htext, drop_succ_cons] at htail
        exact ⟨c, cs, rfl, hstart, fun x hx => hothers x (mem_of_mem_drop (hcs ▸ hx))⟩
    · cases h

lemma spelled_takeJoined {parts : List String} {stop last : Nat}
    (h : Token.takeJoined parts stop ts = some (last, rest)) (hts : Token.Spelled ts) :
    Token.Spelled rest := by
  fun_induction Token.takeJoined parts stop ts with
  | case1 =>
    cases h
    exact hts
  | case2 =>
    obtain ⟨more, hmore, heq⟩ := Option.map_eq_some_iff.mp h
    cases heq
    exact (spelled_dropText hmore (hts _ mem_cons_self)).append hts.tail
  | case3 | case5 | case6 => cases h
  | case4 _ _ _ _ _ _ _ ih => exact ih h hts.tail

lemma spelled_of_reads {held : List Tree}
    (h : Reads g rule held ts trees rest) (hts : Token.Spelled ts) : Token.Spelled rest := by
  induction h with
  | symbol | keyword | word | literal => exact hts.tail
  | joined h => exact spelled_takeJoined h hts
  | angle h => exact (spelled_splitAngle h).append hts.tail
  | empty | notWord | notAhead | atEnd | manyNone | hole | holeHas => exact hts
  | seq _ _ iha ihb | manyMore _ _ iha ihb | share _ _ iha ihb | chainMore _ _ iha ihb =>
    exact ihb (iha hts)
  | altLeft _ ih | altRight _ ih | role _ ih | node _ ih | call _ ih | chainFirst _ ih
  | operators _ ih => exact ih hts

variable (kinds) in
/-- What is true of the trees that a rule gives. -/
structure GivesShaped (rule : Rule N) (held : Bounds) (trees : List Tree) : Prop where
  hold : (rule.bounds kinds held).Hold trees
  shaped : ∀ t ∈ trees, t.Shaped
  last : ∀ k, rule.endsWith kinds held k → trees.Pairwise fun t _ => t.kind ≠ k
  mark : ∀ test, rule.readsMark test → ∃ t, trees = [t] ∧ t.kind = .literal ∧ test t.mark
  chained : rule.chains kinds held → Chained trees
  split : ∀ first rest, rule = seq first rest → ∃ xs ys, trees = xs ++ ys ∧
    (first.bounds kinds held).Hold xs ∧ (rest.chains kinds held → Chained ys)

lemma GivesShaped.of_hold
    (hold : (rule.bounds kinds held).Hold trees) (shaped : ∀ t ∈ trees, t.Shaped)
    (hmark : ∀ test, rule.readsMark test = false := by intro _; rfl)
    (hchains : rule.chains kinds held = false := by rfl)
    (hseq : ∀ first rest, rule ≠ seq first rest := by nofun)
    (hlast : ∀ k, rule.endsWith kinds held k = (rule.bounds kinds held).isFew
      k := by intro _; rfl) :
    rule.GivesShaped kinds held trees where
  hold := hold
  shaped := shaped
  last k h := hold.pairwise_ne (hlast k ▸ h)
  mark test h := absurd h (by simp [hmark test])
  chained h := absurd h (by simp [hchains])
  split first rest h := absurd h (hseq first rest)

lemma kind_of_readsMark {test : String → Bool}
    (h : (symbol text kind : Rule N).readsMark test) : kind = .literal ∧ test text := by
  unfold readsMark at h
  split at h
  · next heq =>
    cases heq
    exact ⟨rfl, h⟩
  all_goals simp_all

lemma kind_of_chains (h : (symbol text kind : Rule N).chains kinds held) :
    kind = .literal ∧ ["++", "--"].contains text := by
  unfold chains at h
  split at h
  all_goals simp_all

lemma shaped_mark (range : Range) (h : isSolid text) :
    (Tree.leaf none .literal range text).Shaped :=
  .leaf none range (fits_of_leafFits (by decide)) ⟨nofun, fun _ => h, nofun⟩

lemma GivesShaped.altLeft (h : a.GivesShaped kinds held trees) (b : Rule N) :
    (alt a b).GivesShaped kinds held trees where
  hold := h.hold.altLeft _
  shaped := h.shaped
  last k hlast := h.last k (and_eq_true_iff.mp hlast).1
  mark test hmark := h.mark test (and_eq_true_iff.mp hmark).1
  chained hchains := h.chained (and_eq_true_iff.mp hchains).1
  split := nofun

lemma GivesShaped.altRight {b : Rule N} (h : b.GivesShaped kinds held trees) (a : Rule N) :
    (alt a b).GivesShaped kinds held trees where
  hold := h.hold.altRight _
  shaped := h.shaped
  last k hlast := h.last k (and_eq_true_iff.mp hlast).2
  mark test hmark := h.mark test (and_eq_true_iff.mp hmark).2
  chained hchains := h.chained (and_eq_true_iff.mp hchains).2
  split := nofun

lemma GivesShaped.node (ha : a.GivesShaped kinds held trees) (hatom : kind.isAtom = false)
    (hfit : (a.bounds kinds held).fit kind)
    (hlast : ∀ k ∈ kind.shape.last, a.endsWith kinds held k) :
    (node kind a).GivesShaped kinds held [around kind trees] := by
  have hshaped : (around kind trees).Shaped :=
    .node none _ ha.shaped (ha.hold.fits hfit fun k hk => ha.last k (hlast k hk)) hatom
  refine ⟨.one rfl (mem_singleton_self kind), by simpa using hshaped,
    fun k _ => pairwise_singleton _ _, fun test h => (by cases h), fun h => ?_, nofun⟩
  have hkind : kind = .instanceofExpression := by
    unfold chains at h
    split at h
    all_goals simp_all
  exact .test hshaped hkind .nil

section

variable (ha : a.GivesShaped kinds held xs)
include ha

lemma chained_of_marks (hmark : a.readsMark fun text => !(["++", "--"].contains text))
    {operand : Tree} (hys : ys = [operand]) (hoperand : operand.IsPart) : Chained (xs ++ ys) := by
  obtain ⟨op, rfl, hkind, htest⟩ := ha.mark _ hmark
  have hop : op.IsOperator :=
    ⟨ha.shaped op (mem_singleton_self op), hkind, by simpa [isIncrement] using htest⟩
  subst hys
  exact .operator hop hoperand .nil

lemma GivesShaped.seq {b : Rule N} (hb : b.GivesShaped kinds held ys) :
    (seq a b).GivesShaped kinds held (xs ++ ys) where
  hold := ha.hold.seq hb.hold
  shaped := forall_mem_append.mpr ⟨ha.shaped, hb.shaped⟩
  last k h := by
    simp only [endsWith, or_eq_true, and_eq_true, beq_iff_eq] at h
    rcases h with ⟨hnone, hlast⟩ | ⟨hlast, hnone⟩
    · have hne (t : Tree) (ht : t ∈ xs) : t.kind ≠ k := by
        intro hkind
        have hother := ha.hold.forall_mem hnone t ht
        simp [Label.ofKind, label, hkind] at hother
      exact pairwise_append.mpr ⟨pairwise_of_forall_mem_list fun t ht _ _ => hne t ht,
        hb.last k hlast, fun t ht _ _ => hne t ht⟩
    · have hempty : ys = [] :=
        eq_nil_iff_forall_not_mem.mpr fun t ht => by cases hb.hold.forall_mem hnone t ht
      rw [hempty, append_nil]
      exact ha.last k hlast
  mark test h := by cases h
  chained h := by
    simp only [chains, or_eq_true, and_eq_true] at h
    rcases h with ⟨hmark, hone⟩ | ⟨hxs, hys⟩
    · obtain ⟨operand, rfl, _, hkind⟩ := hb.hold.isOne hone
      exact chained_of_marks ha hmark rfl
        ⟨hb.shaped operand (mem_singleton_self operand), by simpa using hkind⟩
    · exact (ha.chained hxs).append (hb.chained hys)
  split first rest h := by
    cases h
    exact ⟨xs, ys, rfl, ha.hold, hb.chained⟩

lemma GivesShaped.manyMore (hmore : (many a).GivesShaped kinds held ys) :
    (many a).GivesShaped kinds held (xs ++ ys) where
  hold := ha.hold.manyMore hmore.hold
  shaped := forall_mem_append.mpr ⟨ha.shaped, hmore.shaped⟩
  last k hlast := (ha.hold.manyMore hmore.hold).pairwise_ne hlast
  mark test h := by cases h
  chained h := (ha.chained h).append (hmore.chained h)
  split := nofun

end

lemma GivesShaped.operators {first more : Rule N}
    (h : (Rule.seq first more).GivesShaped kinds held trees)
    (hone : (first.bounds kinds held).isOne fun k => !k.isOutside)
    (hchains : more.chains kinds held) :
    (operators (.seq first more)).GivesShaped kinds held (ofChain trees) := by
  obtain ⟨xs, ys, rfl, hxs, hys⟩ := h.split first more rfl
  obtain ⟨operand, rfl, hrole, hkind⟩ := hxs.isOne hone
  have hoperand : operand.IsPart := ⟨h.shaped operand (by simp), by simpa using hkind⟩
  obtain ⟨t, ht, hshaped, htrole, hkind⟩ := ofChain_spec hoperand hrole (hys hchains)
  rw [singleton_append, ht]
  refine .of_hold ?_ (by simpa using hshaped)
  rcases hkind with hkind | hkind
  · have hlabel : t.label = operand.label := by rw [label, label, htrole, hrole, hkind]
    exact (hxs.of_label hlabel).altLeft _
  · exact (Bounds.Hold.one htrole hkind).altRight _

lemma reads_shaped (hg : ∀ n, (g n).fits kinds .nothing ∧
      ((g n).bounds kinds .nothing).isOne (kinds n).contains)
    {held : List Tree} (h : Reads g rule held ts trees rest)
    {b : Bounds} (hrule : rule.fits kinds b) (hheld : b.Hold held) (hshaped : ∀ t ∈ held, t.Shaped)
    (hts : Token.Spelled ts) : rule.GivesShaped kinds b trees := by
  induction h generalizing b with
  | empty | notWord | atEnd | holeHas => exact .of_hold .nothing (by simp)
  | @symbol text kind held t ts hkind htext =>
    simp only [fits, and_eq_true, bne_iff_ne] at hrule
    have hleaf : (t.leaf kind).Shaped :=
      shaped_leaf hrule.1.1
        ⟨fun h => absurd h hrule.1.2, fun _ => htext ▸ hrule.2, ne_genericType hrule.1.1⟩
    refine ⟨hold_leaf kind t, by simpa using hleaf, fun k _ => pairwise_singleton _ _,
      fun test hmark => ?_, fun hchains => ?_, nofun⟩
    · obtain ⟨rfl, htest⟩ := kind_of_readsMark hmark
      subst htext
      exact ⟨_, rfl, rfl, htest⟩
    · obtain ⟨rfl, htest⟩ := kind_of_chains hchains
      subst htext
      exact .increment hleaf rfl htest .nil
  | keyword hkind | word hkind =>
    exact .of_hold (hold_leaf _ _) (forall_mem_singleton.mpr
      (shaped_leaf hrule (.of_word (hts _ mem_cons_self hkind) (ne_genericType hrule))))
  | literal hkind =>
    simp only [fits, and_eq_true, not_eq_true'] at hrule
    exact .of_hold (hold_leaf _ _) (forall_mem_singleton.mpr
      (shaped_leaf hrule.1 (.of_loose hrule.2 (ne_genericType hrule.1) _)))
  | joined h =>
    exact .of_hold (.one rfl (mem_singleton_self _)) (by simpa using shaped_mark _ hrule)
  | angle h =>
    unfold Token.splitAngle at h
    split at h
    · cases h
      exact .of_hold (.one rfl (mem_singleton_self _))
        (forall_mem_singleton.mpr (shaped_mark _ (by decide)))
    · cases h
  | @notAhead a held ts hne =>
    cases a with
    | empty => exact absurd rfl hne
    | _ => exact .of_hold .nothing (by simp)
  | seq ha hb iha ihb =>
    simp only [fits, and_eq_true] at hrule
    exact (iha hrule.1 hheld hshaped hts).seq (ihb hrule.2 hheld hshaped (spelled_of_reads ha hts))
  | altLeft _ ih =>
    simp only [fits, and_eq_true] at hrule
    exact (ih hrule.1 hheld hshaped hts).altLeft _
  | altRight _ ih =>
    simp only [fits, and_eq_true] at hrule
    exact (ih hrule.2 hheld hshaped hts).altRight _
  | manyNone =>
    exact ⟨.manyNone _, by simp, fun _ _ => .nil, fun _ h => (by cases h), fun _ => .nil, nofun⟩
  | manyMore ha _ iha ihmore =>
    exact (iha hrule hheld hshaped hts).manyMore
      (ihmore hrule hheld hshaped (spelled_of_reads ha hts))
  | role _ ih =>
    have hinner := ih hrule hheld hshaped hts
    exact .of_hold (hinner.hold.role _)
      (forall_mem_map.mpr fun t ht => (hinner.shaped t ht).inRole _)
  | node _ ih =>
    simp only [fits, and_eq_true, not_eq_true', all_eq_true] at hrule
    obtain ⟨⟨⟨hinner, hatom⟩, hfit⟩, hlast⟩ := hrule
    exact (ih hinner hheld hshaped hts).node hatom hfit hlast
  | @call n held trees ts rest _ ih =>
    have hinner := ih (hg n).1 .nothing (by simp) hts
    obtain ⟨t, rfl, hrole, hkind⟩ := hinner.hold.isOne (hg n).2
    exact .of_hold (.one hrole (by simpa using hkind)) hinner.shaped
  | hole => exact .of_hold hheld hshaped
  | share ha _ iha ihb =>
    simp only [fits, and_eq_true] at hrule
    have hfirst := iha hrule.1 hheld hshaped hts
    have hsecond := ihb hrule.2 hfirst.hold hfirst.shaped (spelled_of_reads ha hts)
    exact .of_hold hsecond.hold hsecond.shaped
  | chainFirst _ ih =>
    simp only [fits, and_eq_true] at hrule
    have hfirst := ih hrule.1.1 hheld hshaped hts
    exact .of_hold (hfirst.hold.altLeft _) hfirst.shaped
  | @chainMore c d held xs trees ts middle rest hchain _ ihchain ihb =>
    have hbefore := ihchain hrule hheld hshaped hts
    simp only [fits, and_eq_true] at hrule
    have hnext := ihb hrule.2 hbefore.hold hbefore.shaped (spelled_of_reads hchain hts)
    have hhold := hnext.hold
    rw [bounds_of_isNode hrule.1.2 _ b] at hhold
    exact .of_hold (hhold.altRight _) hnext.shaped
  | @operators a held trees ts rest _ ih =>
    cases a with
    | seq first more =>
      simp only [fits, and_eq_true] at hrule
      obtain ⟨⟨⟨hfirst, hmore⟩, hone⟩, hchains⟩ := hrule
      have hboth : (seq first more).fits kinds b := by
        simp only [fits, hfirst, hmore, Bool.and_self]
      exact (ih hboth hheld hshaped hts).operators hone hchains
    | _ => cases hrule

end Rule

namespace Phrase

def typeKinds : List Kind :=
  [.voidType, .integralType, .floatingPointType, .booleanType, .typeIdentifier, .genericType,
   .scopedTypeIdentifier]

def primaryKinds : List Kind :=
  [.decimalIntegerLiteral, .hexIntegerLiteral, .octalIntegerLiteral, .binaryIntegerLiteral,
   .decimalFloatingPointLiteral, .hexFloatingPointLiteral, .characterLiteral, .stringLiteral,
   .trueLiteral, .falseLiteral, .nullLiteral, .thisKeyword, .methodInvocation, .fieldAccess,
   .methodReference, .objectCreationExpression, .arrayCreationExpression, .parenthesizedExpression,
   .classLiteral, .identifier, .arrayAccess, .templateExpression]

def prefixedKinds : List Kind :=
  primaryKinds ++
    [.unaryExpression, .updateExpression, .lambdaExpression, .castExpression, .switchExpression,
     .assignmentExpression]

def expressionKinds : List Kind :=
  prefixedKinds ++ [.binaryExpression, .instanceofExpression, .ternaryExpression]

def statementKinds : List Kind :=
  [.block, .literal, .ifStatement, .whileStatement, .enhancedForStatement, .forStatement,
   .doStatement, .tryWithResourcesStatement, .tryStatement, .synchronizedStatement,
   .returnStatement, .breakStatement, .continueStatement, .throwStatement, .assertStatement,
   .expressionStatement, .switchExpression, .importDeclaration, .packageDeclaration,
   .moduleDeclaration, .classDeclaration, .interfaceDeclaration, .enumDeclaration,
   .recordDeclaration, .annotationTypeDeclaration, .localVariableDeclaration, .labeledStatement,
   .yieldStatement]

def kinds : Phrase → List Kind
  | item => .methodDeclaration :: statementKinds
  | block => [.block]
  | statement _ => statementKinds
  | expression _ => expressionKinds
  | operand _ | prefixed _ => prefixedKinds
  | primary => primaryKinds
  | parenthesized => [.parenthesizedExpression]
  | arguments => [.argumentList]
  | creation => [.objectCreationExpression, .arrayCreationExpression]
  | string => [.stringLiteral]
  | arrayInitializer => [.arrayInitializer]
  | type => .annotatedType :: .arrayType :: typeKinds
  | plainType => .arrayType :: typeKinds
  | simpleType => typeKinds
  | typeArguments => [.typeArguments]
  | typeParameters => [.typeParameters]
  | annotated => [.annotationUse, .annotationMarker]
  | elementValue =>
    .elementValueArrayInitializer :: .annotationUse :: .annotationMarker :: expressionKinds
  | modifiers _ => [.modifiers]
  | classBody => [.classBody]
  | interfaceBody => [.interfaceBody]
  | annotationBody => [.annotationTypeBody]
  | enumBody => [.enumBody]
  | formalParameters _ => [.formalParameters]
  | switchBlock => [.switchBlock]
  | lambdaRule _ => [.switchRule]
  | recordPattern _ => [.recordPattern]

end Phrase

lemma grammar_fits (n : Phrase) : (grammar n).fits Phrase.kinds .nothing ∧
    ((grammar n).bounds Phrase.kinds .nothing).isOne n.kinds.contains := by
  cases n with
  | prefixed site => rcases site with _ | (_ | (_ | arrows)) <;> exact ⟨rfl, rfl⟩
  | statement inBlock => cases inBlock <;> exact ⟨rfl, rfl⟩
  | modifiers ofType => cases ofType <;> exact ⟨rfl, rfl⟩
  | formalParameters ofLambda => cases ofLambda <;> exact ⟨rfl, rfl⟩
  | recordPattern inLabel => cases inLabel <;> exact ⟨rfl, rfl⟩
  | _ => exact ⟨rfl, rfl⟩

lemma kind_scanMark_ne_word (modes : List Mode) (cs : List Char) :
    (Lexer.scanMark modes cs).kind ≠ .token .word := by
  unfold Lexer.scanMark
  split
  · exact nofun
  · exact nofun
  · split <;> exact nofun

lemma kind_scanQuoted_ne_word (triple : Bool) (outer : List Mode) (cs : List Char) :
    (Lexer.scanQuoted triple outer cs).kind ≠ .token .word := by
  unfold Lexer.scanQuoted Lexer.scanFragment
  dsimp only
  repeat' split
  all_goals exact nofun

lemma text_of_word (h : (Lexer.scan modes cs).kind = .token .word) :
    isIdentifier (String.ofList (Lexer.scan modes cs).text) := by
  rw [isIdentifier_iff, toList_ofList]
  unfold Lexer.scan at h ⊢
  split at h
  · exact absurd h (kind_scanQuoted_ne_word _ _ _)
  · unfold Lexer.scanCode at h ⊢
    split at h
    · cases h
    · next c tail _ =>
      split at h
      · cases h
      · split at h
        · next hspace hstart =>
          simp only [hspace, hstart, if_true, false_eq_true, if_false]
          exact ⟨c, _, rfl, hstart, fun x hx => all_eq_true.mp List.all_takeWhile x hx⟩
        · split at h
          · split at h
            · cases h
            · exact absurd h (kind_scanMark_ne_word _ _)
          · exact absurd h (kind_scanMark_ne_word _ _)
    · cases h

lemma text_of_mem_lexemes {n : Nat} {pos : Nat} {l : Lexeme} (hl : l ∈ Lexer.lexemes n modes pos cs)
    (hkind : l.kind = .token .word) : isIdentifier (String.ofList l.text) := by
  induction n generalizing modes pos cs with
  | zero =>
    unfold Lexer.lexemes at hl
    cases hl
  | succ n ih =>
    cases cs with
    | nil =>
      unfold Lexer.lexemes at hl
      cases hl
    | cons c cs =>
      unfold Lexer.lexemes at hl
      rcases mem_cons.mp hl with rfl | hl
      · exact text_of_word hkind
      · exact ih hl

lemma spelled_tokens (source : List Char) : Token.Spelled (scanUnit source).1 := by
  intro t ht hkind
  obtain ⟨l, hl, htoken⟩ := mem_filterMap.mp ht
  have hword : l.kind = .token .word ∧ t.text = String.ofList l.text := by
    unfold Lexeme.token? at htoken
    split at htoken
    · next kind hl =>
      cases htoken
      exact ⟨hl.trans (congrArg _ hkind), rfl⟩
    · cases htoken
  rw [hword.2]
  unfold Lexer.lex at hl
  split at hl
  · cases hl
  · split at hl <;> exact text_of_mem_lexemes hl hword.1

lemma isComment_comments (source : List Char) : ∀ x ∈ (scanUnit source).2, x.IsComment := by
  intro x hx
  obtain ⟨lexeme, _, hlexeme⟩ := mem_filterMap.mp hx
  unfold Lexeme.comment? at hlexeme
  split at hlexeme
  · next kind _ =>
    cases hlexeme
    cases kind
    · exact ⟨⟨rfl, rfl⟩, .leaf none _ (Rule.fits_of_leafFits (by decide))
        (.of_loose rfl (by decide) _)⟩
    · exact ⟨⟨rfl, rfl⟩, .leaf none _ (Rule.fits_of_leafFits (by decide))
        (.of_loose rfl (by decide) _)⟩
  · cases hlexeme

lemma shaped_of_parse (h : parse? source = some unit) : unit.Shaped := by
  unfold parse? at h
  dsimp only at h
  split at h
  case h_1 items hitems =>
    cases h
    have hread := Rule.reads_shaped grammar_fits (Rule.reads_of_run _ hitems) rfl
      .nothing (by simp) (spelled_tokens source)
    have hkinds (c : Tree) (hc : c ∈ items) : Kind.program.shape.admits c.label := by
      simpa using @Bounds.Hold.forall_mem _ _ (fun l => !Kind.program.shape.admits l)
        hread.hold rfl c hc
    refine .node none _ (fun t ht => ?_) ⟨fun t ht => ?_, nofun, nofun, nofun, nofun,
      nofun, nofun⟩ rfl
    · rcases mem_weaveAll ht with ht | ⟨c, hc, inside, hinside, rfl⟩
      · exact (isComment_comments source t ht).shaped
      · exact shaped_weave (hread.shaped c hc) fun x hx =>
          isComment_comments source x (hinside x hx)
    · rcases mem_weaveAll ht with ht | ⟨c, hc, inside, hinside, rfl⟩
      · exact .inl (isComment_comments source t ht).toIsRemark
      · exact .inr (by rw [label_weave]; exact hkinds c hc)
  case h_2 => cases h

lemma kind_of_parse (h : parse? source = some unit) : unit.kind = .program := by
  unfold parse? at h
  dsimp only at h
  split at h <;> cases h
  rfl

end Xref.Syntax
