import Mathlib.Algebra.Group.Nat.Defs
import Xref.Proofs.Resolve.Candidates
import Xref.Proofs.Resolve.Similar
import Xref.Reference.Overload

/-!
# The choice between overloads

The candidate with the best score wins, whatever its score is made of. A resolved argument that fits
counts one to three and one that does not counts minus four, so a candidate that fits can only lose
to one that has few misfits among many arguments.
-/
open List Option

namespace Xref.Reference

open Java Resolve Finds

/-- The candidate can be called with this number of arguments, with one for each parameter or with
any number of them for the last one. -/
def Accepts (c : Candidate) (count : Nat) : Prop :=
  count = c.params.length ∨ c.isVarargs ∧ c.params ≠ [] ∧ c.params.length - 1 ≤ count

namespace Overload

variable {index : TypeIndex} {m : Memory} {c : Candidate} {args : List (Option TypeName)}

lemma poses_scoreArgument (param : String) (arg : Option TypeName) :
    Poses fun index => scoreArgument index param arg := by
  cases arg with
  | none => exact .pure 0
  | some a =>
    exact .ite _ (.pure 0) (.ite _ (.pure _)
      (.bind (.pose (.isAssignable a.name param) rfl) fun _ => .pure _))

lemma poses_score (params : List String) (args : List (Option TypeName)) :
    Poses fun index => score index params args := by
  refine .foldlM (fun total pair => ?_) (params.zip args) 0
  exact .bind (poses_scoreArgument pair.1 pair.2) fun _ => .pure _

lemma poses_fixedScore (c : Candidate) (args : List (Option TypeName)) :
    Poses fun index => fixedScore index c args :=
  .ite _ (.bind (poses_score _ args) fun _ => .pure _) (.pure none)

lemma poses_applicability (c : Candidate) (args : List (Option TypeName)) :
    Poses fun index => applicability index c args :=
  .bind (poses_fixedScore c args) fun _ =>
    .ite _ (.pure _) (.bind (poses_score _ args) fun _ => .pure _)

lemma poses_select (candidates : List Candidate) (args : List (Option TypeName)) :
    Poses fun index => select index candidates args := by
  refine .bind (.foldlM (fun best c => ?_) candidates none) fun _ => .pure _
  refine .bind (poses_applicability c args) fun fits => ?_
  cases fits <;> exact .pure _

variable {params : List String} {candidates : List Candidate} {s : Int} {count cost : Nat}
  {fits : Option Int}

def isKnown (arg : Option TypeName) : Bool := arg.any TypeName.isResolved

/-- The type of the argument is known not to be assignable to the parameter. -/
def isMisfit (index : TypeIndex) (m : Memory) (pair : String × Option TypeName) : Bool :=
  pair.2.any fun a => a.isResolved && !(index.isAssignable a.name pair.1 m).1

lemma isAssignable_self (name : String) : index.isAssignable name name = pure true := by
  unfold TypeIndex.isAssignable Resolve.isAssignable
  simp

lemma scoreArgument_bounds {pair : String × Option TypeName}
    (h : Finds m (scoreArgument index pair.1 pair.2) s) :
    s ≤ 3 * (isKnown pair.2).toNat - 7 * (isMisfit index m pair).toNat ∧
      (isKnown pair.2).toNat - 5 * (isMisfit index m pair).toNat ≤ s := by
  obtain ⟨param, arg⟩ := pair
  obtain rfl : (scoreArgument index param arg m).1 = s := congrArg Prod.fst h
  cases arg with
  | none => exact ⟨Int.le_refl 0, Int.le_refl 0⟩
  | some a =>
    simp only [scoreArgument, isKnown, isMisfit, any_some]
    cases a.isResolved with
    | false => exact ⟨Int.le_refl 0, Int.le_refl 0⟩
    | true =>
      by_cases hexact : a.name = param
      · rw [hexact, isAssignable_self, beq_self_eq_true]
        exact ⟨Int.le_refl 3, by change (1 : Int) ≤ 3; decide⟩
      · rw [beq_false_of_ne hexact]
        change (if (index.isAssignable a.name param m).1 then assignableScore
          else mismatchScore) ≤ _ ∧ _ ≤ if (index.isAssignable a.name param m).1 then
            assignableScore else mismatchScore
        cases (index.isAssignable a.name param m).1 <;> decide

def misfits (index : TypeIndex) (m : Memory) (params : List String)
    (args : List (Option TypeName)) : Nat :=
  (params.zip args).countP (isMisfit index m)

lemma score_bounds (hm : m.active = []) (hlength : params.length = args.length)
    (h : Finds m (score index params args) s) :
    s ≤ 3 * args.countP isKnown - 7 * misfits index m params args ∧
      args.countP isKnown - 5 * misfits index m params args ≤ s := by
  -- The sum of the arguments that come before is a summand of both bounds.
  suffices hsum : ∀ (pairs : List (String × Option TypeName)) (total : Int),
      Finds m (pairs.foldlM (fun total pair => do
        return total + (← scoreArgument index pair.1 pair.2)) total) s →
      s - total ≤ 3 * (pairs.map Prod.snd).countP isKnown - 7 * pairs.countP (isMisfit index m) ∧
        (pairs.map Prod.snd).countP isKnown - 5 * pairs.countP (isMisfit index m) ≤ s - total by
    have hbounds := hsum _ 0 h
    rwa [map_snd_zip (Nat.le_of_eq hlength.symm), Int.sub_zero] at hbounds
  intro pairs
  induction pairs with
  | nil =>
    intro total h
    simp [pure_iff.mp h]
  | cons pair pairs ih =>
    intro total h
    have hargument (pair : String × Option TypeName) :=
      (poses_scoreArgument pair.1 pair.2).stable index
    rw [foldlM_cons] at h
    obtain ⟨next, hnext, hrest⟩ := of_bind hm (.bind (hargument pair) fun _ => .pure _)
      (fun next => .foldlM (fun _ pair => .bind (hargument pair) fun _ => .pure _) pairs next) h
    obtain ⟨first, hfirst, hadd⟩ := of_bind hm (hargument pair) (fun _ => .pure _) hnext
    have hbounds := scoreArgument_bounds hfirst
    have hbounds' := ih next hrest
    rw [← pure_iff.mp hadd] at hbounds'
    have hcount {α : Type} (p : α → Bool) (a : α) (l : List α) :
        (a :: l).countP p = l.countP p + (p a).toNat := by
      rw [countP_cons]
      cases p a <;> rfl
    rw [map_cons, hcount, hcount]
    omega

/-- Every score of fewer than `2 ^ 28` arguments, and one less, is a signed number of 32 bits. So is
the sum on the way to it, which is the score of the arguments that come first. -/
lemma score_bmod (hm : m.active = []) (hlength : params.length = args.length)
    (hshort : args.length < 2 ^ 28) (hcost : cost ≤ 1)
    (h : Finds m (score index params args) s) : (s - cost).bmod (2 ^ 32) = s - cost := by
  have hbounds := score_bounds hm hlength h
  have hknown : args.countP isKnown ≤ args.length := countP_le_length
  have hmisfits : misfits index m params args ≤ (params.zip args).length := countP_le_length
  rw [length_zip] at hmisfits
  exact Int.bmod_eq_of_le (by omega) (by omega)

/-- The parameters that a candidate takes this number of arguments with, and what they cost. -/
inductive IsForm (c : Candidate) (count : Nat) : List String → Nat → Prop where
  | fixed (hcount : count = c.params.length) : IsForm c count c.params 0
  | expanded (hvarargs : c.isVarargs) (hparams : c.params ≠ [])
      (hcount : c.params.length - 1 ≤ count) : IsForm c count (expandVarargs c.params count) 1

lemma IsForm.of_not (h : ¬ (!c.isVarargs || c.params.isEmpty || count < c.params.length - 1)) :
    IsForm c count (expandVarargs c.params count) 1 := by
  simp only [Bool.or_eq_true, Bool.not_eq_true', List.isEmpty_iff, decide_eq_true_eq, not_or,
    Bool.not_eq_false, Nat.not_lt] at h
  exact .expanded h.1.1 h.1.2 h.2

lemma IsForm.accepts (h : IsForm c count params cost) : Accepts c count := by
  cases h with
  | fixed hcount => exact .inl hcount
  | expanded hvarargs hparams hcount => exact .inr ⟨hvarargs, hparams, hcount⟩

lemma IsForm.length (h : IsForm c count params cost) : params.length = count := by
  cases h with
  | fixed hcount => exact hcount.symm
  | expanded _ _ hcount =>
    simp only [expandVarargs, length_append, length_take, length_replicate]
    omega

/-- The score of a candidate is the best one that it has in any form. -/
structure IsBestForm (index : TypeIndex) (m : Memory) (c : Candidate)
    (args : List (Option TypeName)) (fits : Option Int) : Prop where
  attained : ∀ s, fits = some s → ∃ params cost, IsForm c args.length params cost ∧
    Finds m (score index params args) (s + cost)
  bound : ∀ params cost, IsForm c args.length params cost →
    ∃ s best, Finds m (score index params args) s ∧ fits = some best ∧ s - cost ≤ best

lemma fixedScore_cases (hm : m.active = []) (h : Finds m (fixedScore index c args) fits) :
    (args.length = c.params.length ∧ ∃ s, fits = some s ∧ Finds m (score index c.params args) s) ∨
      args.length ≠ c.params.length ∧ fits = none := by
  unfold fixedScore at h
  split at h
  case isTrue hlength =>
    obtain ⟨s, hs, h⟩ := of_bind hm ((poses_score _ args).stable index) (fun _ => .pure _) h
    exact .inl ⟨eq_of_beq hlength, s, (pure_iff.mp h).symm, hs⟩
  case isFalse hlength => exact .inr ⟨fun heq => hlength (beq_iff_eq.mpr heq), (pure_iff.mp h).symm⟩

lemma isBestForm_of_applicability (hm : m.active = [])
    (h : Finds m (applicability index c args) fits) : IsBestForm index m c args fits := by
  have hscore (params : List String) := (poses_score params args).stable index
  obtain ⟨fixed, hfixed, h⟩ := of_bind hm ((poses_fixedScore c args).stable index)
    (fun fixed => .ite _ (.pure _) (.bind (hscore _) fun _ => .pure _)) h
  have hcases := fixedScore_cases hm hfixed
  split at h
  case isTrue hno =>
    obtain rfl := pure_iff.mp h
    simp only [Bool.or_eq_true, Bool.not_eq_true', List.isEmpty_iff, decide_eq_true_eq] at hno
    refine ⟨fun s hs => ?_, fun params cost hform => ?_⟩
    · rcases hcases with ⟨hlength, s', hs', hfound⟩ | ⟨_, hnone⟩
      · obtain rfl : s' = s := some.inj (hs'.symm.trans hs)
        exact ⟨_, 0, .fixed hlength, by simpa using hfound⟩
      · cases hnone.symm.trans hs
    · cases hform with
      | fixed hcount =>
        rcases hcases with ⟨_, s, rfl, hfound⟩ | ⟨hlength, _⟩
        · exact ⟨s, s, hfound, rfl, by simp⟩
        · exact absurd hcount hlength
      | expanded hvarargs hparams hcount =>
        rcases hno with (hno | hno) | hno
        · simp [hvarargs] at hno
        · exact absurd hno hparams
        · omega
  case isFalse hvarargs =>
    have hform := IsForm.of_not hvarargs
    obtain ⟨expanded, hexpanded, h⟩ := of_bind hm (hscore _) (fun _ => .pure _) h
    have hfits := pure_iff.mp h
    rcases hcases with ⟨hlength, fixedScore, rfl, hfound⟩ | ⟨hlength, rfl⟩
    · simp only [map_some, getD_some] at hfits
      subst hfits
      refine ⟨fun s hs => ?_, fun params cost hform => ?_⟩
      · rcases (by omega : max fixedScore (expanded - 1) = fixedScore ∨
          max fixedScore (expanded - 1) = expanded - 1) with hmax | hmax
        · refine ⟨_, 0, .fixed hlength, ?_⟩
          rw [← some.inj hs, hmax]
          simpa using hfound
        · refine ⟨_, 1, hform, ?_⟩
          rw [← some.inj hs, hmax]
          simpa using hexpanded
      · cases hform with
        | fixed hcount => exact ⟨_, _, hfound, rfl, by omega⟩
        | expanded => exact ⟨_, _, hexpanded, rfl, by omega⟩
    · simp only [map_none, getD_none] at hfits
      subst hfits
      refine ⟨fun s hs => ?_, fun params cost hform => ?_⟩
      · refine ⟨_, 1, hform, ?_⟩
        rw [← some.inj hs]
        simpa using hexpanded
      · cases hform with
        | fixed hcount => exact absurd hcount hlength
        | expanded => exact ⟨_, _, hexpanded, rfl, by simp⟩

def better (index : TypeIndex) (args : List (Option TypeName)) (best : Option (Int × Candidate))
    (c : Candidate) : Query (Option (Int × Candidate)) := do
  match ← applicability index c args with
  | none => return best
  | some s => return if best.all fun b => b.1 < s then some (s, c) else best

def Reaches (best : Option (Int × Candidate)) (s : Int) : Prop := ∃ b, best = some b ∧ s ≤ b.1

lemma better_stable (best : Option (Int × Candidate)) (c : Candidate) :
    Stable (better index args best c) := by
  refine .bind ((poses_applicability c args).stable index) fun fits => ?_
  cases fits <;> exact .pure _

section

variable (hm : m.active = [])
include hm

lemma reaches_of_better {best next : Option (Int × Candidate)}
    (h : Finds m (better index args best c) next) :
    ∃ fits, Finds m (applicability index c args) fits ∧ (∀ s, fits = some s → Reaches next s) ∧
      (∀ s, Reaches best s → Reaches next s) ∧
      ∀ b, next = some b → best = some b ∨ fits = some b.1 ∧ b.2 = c := by
  obtain ⟨fits, hfits, h⟩ := of_bind hm ((poses_applicability c args).stable index)
    (fun fits => by cases fits <;> exact .pure _) h
  refine ⟨fits, hfits, ?_⟩
  cases fits with
  | none =>
    obtain rfl := pure_iff.mp h
    exact ⟨by simp, fun s hs => hs, fun b hb => .inl hb⟩
  | some t =>
    obtain rfl := pure_iff.mp h
    split
    case isTrue hall =>
      refine ⟨fun s hs => ⟨_, rfl, Int.le_of_eq (some.inj hs).symm⟩, ?_, ?_⟩
      · rintro s ⟨b, rfl, hle⟩
        have hlt : b.1 < t := by simpa using hall
        exact ⟨_, rfl, Int.le_trans hle (Int.le_of_lt hlt)⟩
      · intro b hb
        obtain rfl := some.inj hb
        exact .inr ⟨rfl, rfl⟩
    case isFalse hall =>
      refine ⟨fun s hs => ?_, fun s hs => hs, fun b hb => .inl hb⟩
      obtain rfl := some.inj hs
      cases best with
      | none => exact absurd rfl hall
      | some b => exact ⟨b, rfl, by simpa using hall⟩

lemma reaches_of_foldlM {best last : Option (Int × Candidate)}
    (h : Finds m (candidates.foldlM (better index args) best) last) :
    (∀ c ∈ candidates, ∃ fits, Finds m (applicability index c args) fits ∧
      ∀ s, fits = some s → Reaches last s) ∧ (∀ s, Reaches best s → Reaches last s) ∧
    ∀ b, last = some b → best = some b ∨
      b.2 ∈ candidates ∧ Finds m (applicability index b.2 args) (some b.1) := by
  induction candidates generalizing best with
  | nil =>
    obtain rfl := pure_iff.mp h
    exact ⟨by simp, fun s hs => hs, fun b hb => .inl hb⟩
  | cons c candidates ih =>
    rw [foldlM_cons] at h
    obtain ⟨next, hnext, hrest⟩ := of_bind hm (better_stable best c)
      (fun next => .foldlM better_stable candidates next) h
    obtain ⟨fits, hfits, hreached, hkept, hfrom⟩ := reaches_of_better hm hnext
    obtain ⟨hreached', hkept', hfrom'⟩ := ih hrest
    refine ⟨?_, fun s hs => hkept' s (hkept s hs), fun b hb => ?_⟩
    · exact forall_mem_cons.mpr ⟨⟨fits, hfits, fun s hs => hkept' s (hreached s hs)⟩, hreached'⟩
    · rcases hfrom' b hb with hnext | ⟨hmem, hfound⟩
      · rcases hfrom b hnext with hbest | ⟨rfl, rfl⟩
        · exact .inl hbest
        · exact .inr ⟨mem_cons_self, hfits⟩
      · exact .inr ⟨mem_cons_of_mem _ hmem, hfound⟩

lemma exists_best {found : Option Candidate} (h : Finds m (select index candidates args) found) :
    ∃ best : Option (Int × Candidate), found = best.map Prod.snd ∧
      (∀ c ∈ candidates, ∃ fits, Finds m (applicability index c args) fits ∧
        ∀ s, fits = some s → Reaches best s) ∧ ∀ b, best = some b →
        b.2 ∈ candidates ∧ Finds m (applicability index b.2 args) (some b.1) := by
  obtain ⟨best, hbest, h⟩ := of_bind hm (.foldlM better_stable candidates none) (fun _ => .pure _) h
  obtain ⟨hreached, -, hfrom⟩ := reaches_of_foldlM hm hbest
  refine ⟨best, (pure_iff.mp h).symm, hreached, fun b hb => ?_⟩
  exact (hfrom b hb).resolve_left (by simp)

lemma mem_of_select (h : Finds m (select index candidates args) (some c)) :
    c ∈ candidates ∧ Accepts c args.length := by
  obtain ⟨best, hfound, -, hfrom⟩ := exists_best hm h
  obtain ⟨b, hb, rfl⟩ := map_eq_some_iff.mp hfound.symm
  obtain ⟨hmem, hfits⟩ := hfrom b hb
  obtain ⟨_, _, hform, _⟩ := (isBestForm_of_applicability hm hfits).attained b.1 rfl
  exact ⟨hmem, hform.accepts⟩

end

/-- In some form the candidate has no argument that is known not to fit. -/
def Fits (index : TypeIndex) (m : Memory) (c : Candidate) (args : List (Option TypeName)) : Prop :=
  ∃ params cost, IsForm c args.length params cost ∧ misfits index m params args = 0

/-- If some candidate fits, then one is selected that has few misfits. It has none if the known
arguments are few. -/
theorem misfits_of_select {candidates : List Candidate} {params : List String} {cost : Nat}
    (hm : m.active = []) (hc : c ∈ candidates) (hform : IsForm c args.length params cost)
    (hfits : misfits index (select index candidates args m).2 params args = 0) :
    ∃ best ∈ candidates, (select index candidates args m).1 = some best ∧
      (∃ params' cost', IsForm best args.length params' cost' ∧
        7 * misfits index (select index candidates args m).2 params' args + cost' ≤
          2 * args.countP isKnown + cost) ∧
      (2 * args.countP isKnown + cost < 7 →
        Fits index (select index candidates args m).2 best args) := by
  obtain ⟨hm', -, hfinds⟩ := ((poses_select candidates args).stable index).finds hm
  generalize (select index candidates args m).2 = m' at hm' hfinds hfits
  generalize (select index candidates args m).1 = found at hfinds
  obtain ⟨best, rfl, hreached, hfrom⟩ := exists_best hm' hfinds
  obtain ⟨fits, hfound, hle⟩ := hreached c hc
  obtain ⟨s, t, hs, rfl, hcost⟩ := (isBestForm_of_applicability hm' hfound).bound params cost hform
  obtain ⟨b, rfl, ht⟩ := hle t rfl
  obtain ⟨hmem, hb⟩ := hfrom b rfl
  obtain ⟨params', cost', hform', hs'⟩ := (isBestForm_of_applicability hm' hb).attained b.1 rfl
  have hlower := (score_bounds hm' hform.length hs).2
  have hupper := (score_bounds hm' hform'.length hs').1
  refine ⟨b.2, hmem, rfl, ⟨params', cost', hform', by omega⟩, fun hfew => ?_⟩
  exact ⟨params', cost', hform', by omega⟩

def overload (params : List String) : Candidate :=
  { declaringType := "A", declaringKind := .classType, name := "m", params, returnType := none,
    isStatic := false, isVarargs := false, isConstructor := false }

def intArguments (count : Nat) : List (Option TypeName) :=
  List.replicate count (some (.resolved "int"))

theorem long_selected :
    ∃ best, (select (.ofTypes []) [overload ["boolean"], overload ["long"]] (intArguments 1) {}).1 =
        some best ∧
      Fits (.ofTypes []) (select (.ofTypes []) [overload ["boolean"], overload ["long"]]
        (intArguments 1) {}).2 best (intArguments 1) := by
  have hfits : misfits (.ofTypes []) (select (.ofTypes []) [overload ["boolean"], overload ["long"]]
      (intArguments 1) {}).2 ["long"] (intArguments 1) = 0 := by decide +kernel
  obtain ⟨best, -, hbest, -, hfew⟩ :=
    misfits_of_select (c := overload ["long"]) rfl (by simp) (.fixed rfl) hfits
  exact ⟨best, hbest, hfew (by decide)⟩

/-- Three arguments of exactly the right type outweigh one that does not fit. -/
theorem misfit_selected :
    Fits (.ofTypes []) {} (overload ["long", "long", "long", "long"]) (intArguments 4) ∧
    ¬ Fits (.ofTypes []) {} (overload ["int", "int", "int", "boolean"]) (intArguments 4) ∧
    (select (.ofTypes []) [overload ["long", "long", "long", "long"],
      overload ["int", "int", "int", "boolean"]] (intArguments 4) {}).1 =
        some (overload ["int", "int", "int", "boolean"]) := by
  refine ⟨⟨_, 0, .fixed rfl, by decide +kernel⟩, ?_, by decide +kernel⟩
  rintro ⟨params, cost, hform, hfits⟩
  cases hform with
  | fixed => exact absurd hfits (by decide +kernel)
  | expanded hvarargs => cases hvarargs

def ofTypes (names : List String) : List (Option TypeName) :=
  names.map fun name => some (.resolved name)

def topScore (names : List String) : Int := exactScore * names.length

lemma topScore_cons (name : String) (names : List String) :
    topScore (name :: names) = topScore names + 3 := by
  simp only [topScore, exactScore, length_cons]
  omega

variable {names : List String}

lemma scoreArgument_yields (param name : String) :
    Yields (fun s => if param = name then s = 3 else s ≤ 1)
      (scoreArgument index param (some (.resolved name))) := by
  intro m
  by_cases h : param = name
  · subst h
    have hexact : scoreArgument index param (some (.resolved param)) = pure exactScore := by
      simp [scoreArgument, TypeName.resolved, TypeName.isResolved]
    rw [if_pos rfl, hexact]
    rfl
  · rw [if_neg h]
    have hother : (scoreArgument index param (some (.resolved name)) m).1 =
        if (index.isAssignable name param m).1 then assignableScore else mismatchScore := by
      have hne : (name == param) = false := beq_false_of_ne fun heq => h heq.symm
      simp only [scoreArgument, TypeName.resolved, TypeName.isResolved, hne]
      rfl
    rw [hother]
    split <;> decide

lemma score_yields (hlength : params.length = names.length) :
    Yields (fun s => if params = names then s = topScore names else s + 2 ≤ topScore names)
      (score index params (ofTypes names)) := by
  suffices hsum : ∀ total : Int, Yields (fun s => if params = names then
      s - total = topScore names else s - total + 2 ≤ topScore names)
      ((params.zip (ofTypes names)).foldlM (fun total pair => do
        return total + (← scoreArgument index pair.1 pair.2)) total) by
    have hscore := hsum 0
    simp only [Int.sub_zero] at hscore
    exact hscore
  induction params generalizing names with
  | nil =>
    cases names with
    | nil => exact fun total => .pure (Int.sub_self total)
    | cons => cases hlength
  | cons param params ih =>
    cases names with
    | nil => cases hlength
    | cons name names =>
      intro total
      change Yields _ (List.foldlM _ total ((param, some (.resolved name)) ::
        params.zip (ofTypes names)))
      rw [foldlM_cons]
      refine .bind (.bind (scoreArgument_yields param name) fun s hs => .pure (P := fun next =>
        if param = name then next = total + 3 else next ≤ total + 1) ?_) fun next hnext m => ?_
      · split at hs
        · rw [if_pos ‹_›, hs]
        · rw [if_neg ‹_›]
          exact Int.add_le_add_left hs total
      · have hrest := ih (Nat.succ.inj hlength) next m
        rw [topScore_cons]
        revert hrest
        generalize Prod.fst _ = s
        grind

/-- A candidate with exactly these parameters has the highest score, and every other one is below
it. -/
structure Rates (c : Candidate) (names : List String) (fits : Option Int) : Prop where
  exact : c.params = names → fits = some (topScore names)
  other : c.params ≠ names → ∀ s, fits = some s → s < topScore names

lemma fixedScore_rates (c : Candidate) (names : List String) :
    Yields (Rates c names) (fixedScore index c (ofTypes names)) := by
  unfold fixedScore
  split
  case isTrue hlength =>
    have hlength : c.params.length = names.length := by
      rw [← eq_of_beq hlength, ofTypes, length_map]
    refine .bind (score_yields hlength) fun s hs => .pure ⟨fun heq => ?_, fun hne t ht => ?_⟩
    · rw [if_pos heq] at hs
      rw [hs]
    · rw [if_neg hne] at hs
      cases ht
      omega
  case isFalse hlength =>
    refine .pure ⟨fun heq => absurd ?_ hlength, fun _ _ hs => by cases hs⟩
    simp [heq, ofTypes]

lemma applicability_rates (c : Candidate) (names : List String) :
    Yields (Rates c names) (applicability index c (ofTypes names)) := by
  refine .bind (fixedScore_rates c names) fun fixed hfixed => ?_
  split
  case isTrue => exact .pure hfixed
  case isFalse hvarargs =>
    have hlength := (IsForm.of_not hvarargs).length.trans (length_map _)
    refine .bind (score_yields hlength) fun s hs => .pure ?_
    have hle : s ≤ topScore names := by split at hs <;> omega
    cases fixed with
    | none =>
      refine ⟨fun heq => ?_, fun _ t ht => ?_⟩
      · cases hfixed.exact heq
      · cases ht
        simp only [map_none, getD_none]
        omega
    | some f =>
      refine ⟨fun heq => ?_, fun hne t ht => ?_⟩
      · cases hfixed.exact heq
        simp only [map_some, getD_some, some.injEq]
        omega
      · have hlt := hfixed.other hne f rfl
        cases ht
        simp only [map_some, getD_some]
        omega

lemma foldlM_of_exact (c : Candidate) : Yields (· = some (topScore names, c))
    (candidates.foldlM (better index (ofTypes names)) (some (topScore names, c))) := by
  refine .foldlM (fun best hbest d _ => .bind (applicability_rates d names) fun fits hfits => ?_)
    rfl
  subst hbest
  cases fits with
  | none => exact .pure rfl
  | some s =>
    refine .pure (if_neg ?_)
    by_cases hd : d.params = names
    · simp [some.inj (hfits.exact hd)]
    · simpa using Int.le_of_lt (hfits.other hd s rfl)

lemma foldlM_of_lower {best : Option (Int × Candidate)}
    (hbest : ∀ b, best = some b → b.1 < topScore names)
    (h : candidates.find? (fun c => c.params == names) = some c) :
    Yields (· = some (topScore names, c))
      (candidates.foldlM (better index (ofTypes names)) best) := by
  induction candidates generalizing best with
  | nil => cases h
  | cons d candidates ih =>
    rw [foldlM_cons]
    rw [find?_cons] at h
    by_cases hd : d.params = names
    · obtain rfl : d = c := by simpa [hd] using h
      refine .bind (P := (· = some (topScore names, d))) (.bind (applicability_rates d names)
        fun fits hfits => ?_) fun next hnext => hnext ▸ foldlM_of_exact d
      rw [hfits.exact hd]
      exact .pure (if_pos (by cases best <;> simp [hbest]))
    · rw [beq_false_of_ne hd] at h
      refine .bind (P := fun next => ∀ b, next = some b → b.1 < topScore names)
        (.bind (applicability_rates d names) fun fits hfits => ?_) fun next hnext => ih hnext h
      cases fits with
      | none => exact .pure hbest
      | some s =>
        refine .pure fun b hb => ?_
        split at hb
        · cases hb
          exact hfits.other hd s rfl
        · exact hbest b hb

lemma applicability_none (c : Candidate) (args : List (Option TypeName)) :
    Yields (fun fits => fits = none ↔ ¬ Accepts c args.length) (applicability index c args) := by
  have hfixed : Yields (fun fixed => fixed = none ↔ args.length ≠ c.params.length)
      (fixedScore index c args) := by
    unfold fixedScore
    split
    case isTrue hlength => exact .last fun s => .pure (by simpa using hlength)
    case isFalse hlength => exact .pure (by simpa using hlength)
  refine .bind hfixed fun fixed hfixed => ?_
  split
  case isTrue hno =>
    refine .pure (hfixed.trans ?_)
    simp only [Bool.or_eq_true, Bool.not_eq_true', List.isEmpty_iff, decide_eq_true_eq] at hno
    unfold Accepts
    grind
  case isFalse hvarargs =>
    refine .last fun s => .pure ?_
    simpa using (IsForm.of_not hvarargs).accepts

lemma foldlM_none (candidates : List Candidate) (best : Option (Int × Candidate)) :
    Yields (fun last => last = none ↔ best = none ∧ ∀ c ∈ candidates, ¬ Accepts c args.length)
      (candidates.foldlM (better index args) best) := by
  induction candidates generalizing best with
  | nil => exact .pure (by simp)
  | cons c candidates ih =>
    rw [foldlM_cons]
    refine .bind (P := fun next => next = none ↔ best = none ∧ ¬ Accepts c args.length)
      (.bind (applicability_none c args) fun fits hfits => ?_) fun next hnext m => ?_
    · cases fits with
      | none =>
        have hno : ¬ Accepts c args.length := hfits.mp rfl
        exact .pure (by simp [hno])
      | some s =>
        have hfits : Accepts c args.length := by simpa using hfits
        refine .pure ?_
        cases best with
        | none => simp [hfits]
        | some b =>
          simp only [hfits, not_true, and_false, iff_false]
          split <;> simp
    · have hlast := ih next m
      dsimp only at hlast
      rw [hlast, hnext, forall_mem_cons, and_assoc]

/-- The first candidate whose parameters are the types of the arguments is selected, whatever else
there is. None is selected only if none can be called with that number of arguments. -/
theorem select_of_exact (index : TypeIndex) (candidates : List Candidate) (m : Memory) :
    (∀ names, (∃ c ∈ candidates, c.params = names) →
      (select index candidates (ofTypes names) m).1 =
        candidates.find? fun c => c.params == names) ∧
    ∀ args, (select index candidates args m).1 = none ↔
      ∀ c ∈ candidates, ¬ Accepts c args.length := by
  refine ⟨fun names hexact => ?_, fun args => ?_⟩
  · obtain ⟨c, hc⟩ : ∃ c, candidates.find? (fun c => c.params == names) = some c := by
      rw [← Option.isSome_iff_exists, List.find?_isSome]
      simpa using hexact
    rw [hc]
    exact congrArg (Option.map Prod.snd) (foldlM_of_lower (by simp) hc m)
  · exact Option.map_eq_none_iff.trans ((foldlM_none candidates none m).trans (by simp))

/-- An integer goes to the candidate for integers, not to an earlier one that widens it or that
takes any number of them. -/
theorem int_selected :
    let candidates := [overload ["long"], { overload ["int[]"] with isVarargs := true },
      overload ["int"]]
    (∃ c ∈ candidates, c.params = ["int"]) ∧
      (select (.ofTypes []) candidates (ofTypes ["int"]) {}).1 = some (overload ["int"]) ∧
      (select (.ofTypes []) candidates (ofTypes []) {}).1 ≠ none := by
  intro candidates
  have hexact : ∃ c ∈ candidates, c.params = ["int"] :=
    ⟨overload ["int"], by simp [candidates], rfl⟩
  obtain ⟨hselected, hnone⟩ := select_of_exact (.ofTypes []) candidates {}
  refine ⟨hexact, (hselected _ hexact).trans rfl, fun h => ?_⟩
  exact (hnone _).mp h _ (List.mem_cons_of_mem _ List.mem_cons_self)
    (.inr ⟨rfl, List.cons_ne_nil _ _, Nat.zero_le _⟩)

end Overload

end Xref.Reference
