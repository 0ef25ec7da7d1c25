import Mathlib.Data.List.Basic
import Xref.Syntax.Parse

/-!
# What a rule can read

`run` follows a rule with fuel and tells failures apart. `Reads` only says which trees a rule can
read and which tokens are left, so that facts about what is read are proved by induction on how it
was read. Where a choice was made, it does not say why.
-/
namespace Xref.Syntax

open Tree

lemma Outcome.of_map {o : Outcome} {f : List Tree → List Tree} {trees : List Tree}
    {rest : List Token} (h : o.map f = .matched trees rest) :
    ∃ before, o = .matched before rest ∧ trees = f before := by
  cases o with
  | matched before others =>
    cases h
    exact ⟨before, rfl, rfl⟩
  | exhausted | refused => cases h

namespace Rule

variable {N : Type}
variable {ts rest : List Token} {trees held : List Tree}

/-- With the trees `held` in the place of `hole`, the rule reads trees from the tokens `ts` and
leaves `rest`. -/
inductive Reads (g : N → Rule N) :
    Rule N → List Tree → List Token → List Tree → List Token → Prop where
  | empty {held : List Tree} {ts : List Token} : Reads g empty held ts [] ts
  | symbol {text : String} {kind : Kind} {held : List Tree} {t : Token} {ts : List Token}
      (hkind : t.kind = .symbol) (htext : t.text = text) :
      Reads g (symbol text kind) held (t :: ts) [t.leaf kind] ts
  | keyword {text : String} {kind : Kind} {held : List Tree} {t : Token} {ts : List Token}
      (hkind : t.kind = .word) (htext : t.text = text) :
      Reads g (keyword text kind) held (t :: ts) [t.leaf kind] ts
  | word {kind : Kind} {held : List Tree} {t : Token} {ts : List Token} (hkind : t.kind = .word) :
      Reads g (word kind) held (t :: ts) [t.leaf kind] ts
  | literal {kind : Kind} {held : List Tree} {t : Token} {ts : List Token}
      (hkind : t.kind = .literal kind) : Reads g (literal kind) held (t :: ts) [t.leaf kind] ts
  | joined {parts : List String} {held : List Tree} {t : Token} {ts rest : List Token} {stop : Nat}
      (h : Token.takeJoined parts t.range.start (t :: ts) = some (stop, rest)) :
      Reads g (joined parts) held (t :: ts)
        [.leaf none .literal ⟨t.range.start, stop⟩ (String.join parts)] rest
  | angle {held : List Tree} {t : Token} {ts rest : List Token} {tree : Tree}
      (h : t.splitAngle = some (tree, rest)) : Reads g angle held (t :: ts) [tree] (rest ++ ts)
  | notWord {words : List String} {held : List Tree} {ts : List Token} :
      Reads g (notWord words) held ts [] ts
  | notAhead {a : Rule N} {held : List Tree} {ts : List Token} (h : a ≠ .empty) :
      Reads g (notAhead a) held ts [] ts
  | atEnd {held : List Tree} : Reads g atEnd held [] [] []
  | seq {a b : Rule N} {held xs ys : List Tree} {ts middle rest : List Token}
      (ha : Reads g a held ts xs middle) (hb : Reads g b held middle ys rest) :
      Reads g (seq a b) held ts (xs ++ ys) rest
  | altLeft {a b : Rule N} {held trees : List Tree} {ts rest : List Token}
      (h : Reads g a held ts trees rest) : Reads g (alt a b) held ts trees rest
  | altRight {a b : Rule N} {held trees : List Tree} {ts rest : List Token}
      (h : Reads g b held ts trees rest) : Reads g (alt a b) held ts trees rest
  | manyNone {a : Rule N} {held : List Tree} {ts : List Token} : Reads g (many a) held ts [] ts
  | manyMore {a : Rule N} {held xs ys : List Tree} {ts middle rest : List Token}
      (ha : Reads g a held ts xs middle) (hmore : Reads g (many a) held middle ys rest) :
      Reads g (many a) held ts (xs ++ ys) rest
  | role {r : Role} {a : Rule N} {held trees : List Tree} {ts rest : List Token}
      (h : Reads g a held ts trees rest) :
      Reads g (role r a) held ts (trees.map (inRole r)) rest
  | node {kind : Kind} {a : Rule N} {held trees : List Tree} {ts rest : List Token}
      (h : Reads g a held ts trees rest) :
      Reads g (node kind a) held ts [around kind trees] rest
  | call {n : N} {held trees : List Tree} {ts rest : List Token}
      (h : Reads g (g n) [] ts trees rest) : Reads g (call n) held ts trees rest
  | hole {held : List Tree} {ts : List Token} : Reads g hole held ts held ts
  | holeHas {test : List Tree → Bool} {held : List Tree} {ts : List Token} :
      Reads g (holeHas test) held ts [] ts
  | share {a b : Rule N} {held xs trees : List Tree} {ts middle rest : List Token}
      (ha : Reads g a held ts xs middle) (hb : Reads g b xs middle trees rest) :
      Reads g (share a b) held ts trees rest
  | chainFirst {a b : Rule N} {held trees : List Tree} {ts rest : List Token}
      (h : Reads g a held ts trees rest) : Reads g (chain a b) held ts trees rest
  | chainMore {a b : Rule N} {held xs trees : List Tree} {ts middle rest : List Token}
      (hchain : Reads g (chain a b) held ts xs middle) (hb : Reads g b xs middle trees rest) :
      Reads g (chain a b) held ts trees rest
  | operators {a : Rule N} {held trees : List Tree} {ts rest : List Token}
      (h : Reads g a held ts trees rest) :
      Reads g (operators a) held ts (ofChain trees) rest

variable {g : N → Rule N} {a : Rule N}

lemma of_single {test : Token → Bool} {kind : Kind}
    (h : single test kind ts = .matched trees rest) :
    ∃ t, ts = t :: rest ∧ test t ∧ trees = [t.leaf kind] := by
  unfold single at h
  split at h
  · next t ts =>
    split at h
    · next htest =>
      cases h
      exact ⟨t, rfl, htest, rfl⟩
    · cases h
  · cases h

lemma reads_of_repeatStep {step : List Token → Outcome}
    (hstep : ∀ ts trees rest, step ts = .matched trees rest → Reads g a held ts trees rest)
    (n : Nat) {found : List Tree} (h : repeatStep step n found ts = .matched trees rest) :
    ∃ more, trees = found.reverse ++ more ∧ Reads g (many a) held ts more rest := by
  fun_induction repeatStep step n found ts with
  | case2 _ _ _ xs _ hfirst ih =>
    obtain ⟨more, rfl, hmore⟩ := ih h
    exact ⟨xs ++ more, by simp, .manyMore (hstep _ _ _ hfirst) hmore⟩
  | case3 =>
    cases h
    exact ⟨[], by simp, .manyNone⟩
  | case1 | case4 => cases h

lemma reads_of_chainStep {b : Rule N} {step : List Tree → List Token → Outcome}
    (hstep : ∀ xs middle trees rest, step xs middle = .matched trees rest →
      Reads g b xs middle trees rest)
    (n : Nat) {xs : List Tree} {middle : List Token} (hxs : Reads g (chain a b) held ts xs middle)
    (h : chainStep step n xs middle = .matched trees rest) :
    Reads g (chain a b) held ts trees rest := by
  fun_induction chainStep step n xs middle with
  | case2 _ _ _ _ _ hnext ih => exact ih (.chainMore hxs (hstep _ _ _ _ hnext)) h
  | case3 =>
    cases h
    exact hxs
  | case1 | case4 => cases h

lemma run_empty_ne_refused (n : Nat) (held : List Tree) (ts : List Token) :
    run g n empty held ts ≠ .refused := by
  cases n <;> exact nofun

lemma reads_of_run (n : Nat) {rule : Rule N}
    (h : run g n rule held ts = .matched trees rest) : Reads g rule held ts trees rest := by
  induction n generalizing rule held ts trees rest with
  | zero => cases h
  | succ n ih =>
    unfold run at h
    cases rule with
    | empty =>
      cases h
      exact .empty
    | symbol text kind =>
      obtain ⟨t, rfl, htest, rfl⟩ := of_single h
      simp only [Bool.and_eq_true, beq_iff_eq] at htest
      exact .symbol htest.1 htest.2
    | keyword text kind =>
      obtain ⟨t, rfl, htest, rfl⟩ := of_single h
      simp only [Bool.and_eq_true, beq_iff_eq] at htest
      exact .keyword htest.1 htest.2
    | word kind =>
      obtain ⟨t, rfl, htest, rfl⟩ := of_single h
      exact .word (eq_of_beq htest)
    | literal kind =>
      obtain ⟨t, rfl, htest, rfl⟩ := of_single h
      exact .literal (eq_of_beq htest)
    | joined parts =>
      dsimp only at h
      split at h
      · cases h
      · split at h
        case h_1 hjoined =>
          cases h
          exact .joined hjoined
        case h_2 => cases h
    | angle =>
      dsimp only at h
      split at h
      · cases h
      · split at h
        case h_1 hsplit =>
          cases h
          exact .angle hsplit
        case h_2 => cases h
    | notWord words =>
      dsimp only at h
      split at h
      · split at h
        · cases h
        · cases h
          exact .notWord
      · cases h
        exact .notWord
    | notAhead a =>
      dsimp only at h
      split at h
      case h_1 | h_3 => cases h
      case h_2 hrefused =>
        cases h
        refine .notAhead fun ha => ?_
        subst ha
        exact run_empty_ne_refused n held ts hrefused
    | atEnd =>
      dsimp only at h
      split at h
      case isTrue hempty =>
        cases h
        obtain rfl := List.isEmpty_iff.mp hempty
        exact .atEnd
      case isFalse => cases h
    | seq a b =>
      dsimp only at h
      split at h
      case h_1 hfirst =>
        obtain ⟨ys, hsecond, rfl⟩ := Outcome.of_map h
        exact .seq (ih hfirst) (ih hsecond)
      case h_2 hnone => exact absurd h (hnone _ _)
    | alt a b =>
      dsimp only at h
      split at h
      · exact .altRight (ih h)
      · exact .altLeft (ih h)
    | many a =>
      obtain ⟨more, rfl, hmore⟩ := reads_of_repeatStep (fun _ _ _ => ih) n h
      exact hmore
    | role r a =>
      obtain ⟨inner, hinner, rfl⟩ := Outcome.of_map h
      exact .role (ih hinner)
    | node kind a =>
      obtain ⟨inner, hinner, rfl⟩ := Outcome.of_map h
      exact .node (ih hinner)
    | call m => exact .call (ih h)
    | hole =>
      cases h
      exact .hole
    | holeHas test =>
      dsimp only at h
      split at h
      · cases h
        exact .holeHas
      · cases h
    | share a b =>
      dsimp only at h
      split at h
      case h_1 hfirst => exact .share (ih hfirst) (ih h)
      case h_2 hnone => exact absurd h (hnone _ _)
    | chain a b =>
      dsimp only at h
      split at h
      case h_1 hfirst => exact reads_of_chainStep (fun _ _ _ _ => ih) n (.chainFirst (ih hfirst)) h
      case h_2 hnone => exact absurd h (hnone _ _)
    | operators a =>
      obtain ⟨inner, hinner, rfl⟩ := Outcome.of_map h
      exact .operators (ih hinner)

end Rule

end Xref.Syntax
