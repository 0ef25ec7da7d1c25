import Xref.Proofs.Resolve.Soundness

/-!
# Type variables and their bounds

A type variable stands for its bound. Where the bound is a variable again it is followed, eight
times at most, so that variables that bound each other come to an end. What is found at the end is
followed by all brackets that were written on the way.
-/
open List Option

namespace Xref.Resolve

open Java Text

/-- The text is the type variable `v` of the context with so many pairs of brackets after it. Of
variables with the same name the innermost counts, and a keyword is no variable. -/
structure Stands (ctx : Context) (text : String) (v : TypeVariable) (dims : Nat) : Prop where
  written : Dimensioned text v.name dims
  named : v.name ≠ ""
  word : isPrimitive v.name = false
  innermost : ∃ outer inner, ctx.typeVariables = outer ++ v :: inner ∧ ∀ w ∈ inner, w.name ≠ v.name

def IsVariable (ctx : Context) (text : String) : Prop := ∃ v dims, Stands ctx text v dims

lemma dropDims_blank {gap : List Char} (h : gap.all isBlank) (cs : List Char) :
    dropDims (gap ++ cs) = dropDims cs := by
  induction gap with
  | nil => rfl
  | cons c gap ih =>
    simp only [all_cons, Bool.and_eq_true] at h
    have hne : c ≠ ']' := by
      rintro rfl
      exact absurd h.1 (by decide)
    rw [cons_append, dropDims.eq_2 _ _ (by simp [hne]), if_pos h.1, ih h.2]

lemma dropDims_gaps {gaps : List (List Char)} (h : ∀ gap ∈ gaps, gap.all isBlank) (cs : List Char) :
    dropDims ((gaps.flatMap (· ++ ['[', ']'])).reverse ++ cs) =
      ((dropDims cs).1, (dropDims cs).2 + gaps.length) := by
  induction gaps generalizing cs with
  | nil => rfl
  | cons gap gaps ih =>
    obtain ⟨hgap, hgaps⟩ := forall_mem_cons.mp h
    have hfirst : (gap ++ ['[', ']']).reverse ++ cs = ']' :: '[' :: (gap.reverse ++ cs) := by simp
    rw [flatMap_cons, reverse_append, append_assoc, ih hgaps, hfirst, dropDims,
      dropDims_blank (by simpa using hgap)]
    simp only [length_cons]
    congr 1
    omega

lemma splitArray_of_dimensioned {text base : String} {dims : Nat} (h : Dimensioned text base dims)
    (hne : base ≠ "") : splitArray text = (base, dims) := by
  obtain ⟨⟨lead, last, gaps, hwritten, rfl, hblank⟩, hfirst, hlast, hbare⟩ := h
  obtain ⟨hlead, hblank⟩ := forall_mem_cons.mp hblank
  obtain ⟨hend, hgaps⟩ := forall_mem_cons.mp hblank
  obtain ⟨c, cs, hbase⟩ := exists_cons_of_ne_nil (show base.toList ≠ [] by simpa using hne)
  obtain ⟨front, d, hback⟩ := (eq_nil_or_concat base.toList).resolve_left (by simp [hbase])
  have hd : isBlank d = false := by simpa [hback] using hlast
  have hc : isBlank c = false := by simpa [hbase] using hfirst
  -- the element type ends in no brackets, and white space in front of it does not make any
  have hstop : dropDims (base.toList.reverse ++ lead.reverse) =
      (base.toList.reverse ++ lead.reverse, 0) := by
    have hcons : base.toList.reverse ++ lead.reverse = d :: (front.reverse ++ lead.reverse) := by
      simp [hback]
    rw [hcons, dropDims.eq_2, if_neg (by simp [hd])]
    rintro rest rfl hrest
    rcases eq_nil_or_concat front with rfl | ⟨before, e, rfl⟩
    · have hmem : '[' ∈ lead := by
        rw [← mem_reverse, show lead.reverse = '[' :: rest by simpa using hrest]
        exact mem_cons_self
      exact absurd (all_eq_true.mp hlead _ hmem) (by decide)
    · obtain ⟨rfl, -⟩ : e = '[' ∧ _ := by simpa using hrest
      exact hbare ⟨before, by simp [hback]⟩
  have hreverse : text.toList.reverse = last.reverse ++
      ((gaps.flatMap (· ++ ['[', ']'])).reverse ++ (base.toList.reverse ++ lead.reverse)) := by
    simp [hwritten]
  have hdrop : (lead ++ base.toList).dropWhile isBlank = base.toList := by
    rw [dropWhile_append_of_pos (all_eq_true.mp hlead), hbase, dropWhile_cons_of_neg (by simp [hc])]
  rw [splitArray, hreverse, dropDims_blank (by simpa using hend), dropDims_gaps hgaps, hstop]
  simp [hdrop]

variable {ctx : Context} {v : TypeVariable}

lemma typeVariable?_eq_some {name : String} :
    ctx.typeVariable? name = some v ↔ v.name = name ∧
      ∃ outer inner, ctx.typeVariables = outer ++ v :: inner ∧ ∀ w ∈ inner, w.name ≠ v.name := by
  rw [Context.typeVariable?, find?_eq_some_iff_append, beq_iff_eq]
  refine and_congr_right fun hname => ?_
  constructor
  · rintro ⟨inner, outer, hvars, hinner⟩
    refine ⟨outer.reverse, inner.reverse, by simpa using congrArg List.reverse hvars,
      fun w hw => ?_⟩
    simpa [hname] using hinner w (mem_reverse.mp hw)
  · rintro ⟨outer, inner, hvars, hinner⟩
    refine ⟨inner.reverse, outer.reverse, by simp [hvars], fun w hw => ?_⟩
    simpa [hname] using hinner w (mem_reverse.mp hw)

/-- From `text` so many bounds lead to `last`, and so many pairs of brackets stand after the
variables on the way. -/
inductive Reaches (ctx : Context) : Nat → String → Nat → String → Prop
  | here (text : String) : Reaches ctx 0 text 0 text
  | bound {n : Nat} {text bound last : String} {v : TypeVariable} {dims more : Nat} :
    Stands ctx text v dims → v.bound = some bound → Reaches ctx n bound more last →
      Reaches ctx (n + 1) text (more + dims) last

/-- What the variable `text` is bound to if at most `depth` bounds are followed and other types are
bound by `resolve`: what the first bound that is no variable is bound to, or the root class. -/
inductive Erases (ctx : Context) (resolve : String → Query (Option String)) (depth : Nat)
    (text : String) : Query (Option String) → Prop
  | reached {n dims : Nat} {last : String} : n ≤ depth → Reaches ctx n text dims last →
    ¬ IsVariable ctx last → Erases ctx resolve depth text (do
      let found ← resolve last
      return some (withDims (found.getD objectName) dims))
  | ended {n dims own : Nat} {last : String} {v : TypeVariable} : n ≤ depth →
    Reaches ctx n text dims last → Stands ctx last v own → v.bound = none ∨ n = depth →
      Erases ctx resolve depth text (pure (some (withDims objectName (own + dims))))

/-- The brackets of the variable itself come after what its bound is bound to. -/
lemma Erases.bound {resolve : String → Query (Option String)} {depth dims : Nat}
    {text bound : String} {x : Query (Option String)} (hv : Stands ctx text v dims)
    (hbound : v.bound = some bound) (h : Erases ctx resolve depth bound x) :
    Erases ctx resolve (depth + 1) text (do
      let found ← x
      return some (withDims (found.getD objectName) dims)) := by
  cases h with
  | reached hn hreaches hlast =>
    have hreached : Erases ctx resolve (depth + 1) text _ :=
      .reached (Nat.succ_le_succ hn) (.bound hv hbound hreaches) hlast
    simpa [withDims_withDims] using hreached
  | ended hn hreaches hlast hend =>
    have hended : Erases ctx resolve (depth + 1) text _ :=
      .ended (Nat.succ_le_succ hn) (.bound hv hbound hreaches) hlast (hend.imp_right (congrArg _))
    simpa [withDims_withDims, Nat.add_assoc] using hended

section

variable {index : TypeIndex} {lineage : Lineage} {text : String}

lemma resolveErased_of_stands {v : TypeVariable} {dims : Nat} (h : Stands ctx text v dims)
    (follow : String → Query String) : resolveErased index lineage follow text ctx = (do
      let found ← (v.bound.map follow).getD (pure objectName)
      return some (withDims found dims)) := by
  have hv : ctx.typeVariable? v.name = some v := typeVariable?_eq_some.mpr ⟨rfl, h.innermost⟩
  rw [resolveErased, splitArray_of_dimensioned h.written h.named, if_neg (by simpa using h.named),
    resolveElement, if_neg (by simp [h.word]), hv]
  rfl

lemma resolveErased_of_not_variable (h : ¬ IsVariable ctx text)
    (follow follow' : String → Query String) :
    resolveErased index lineage follow text ctx = resolveErased index lineage follow' text ctx := by
  unfold resolveErased
  split
  next => rfl
  next hempty =>
    unfold resolveElement
    split
    next => rfl
    next hword =>
      cases hv : ctx.typeVariable? (splitArray text).1 with
      | none => rfl
      | some v =>
        obtain ⟨hname, hinnermost⟩ := typeVariable?_eq_some.mp hv
        refine (h ⟨v, (splitArray text).2, ?_, ?_, ?_, hinnermost⟩).elim <;> rw [hname]
        · exact dimensioned_splitArray text
        · simpa using hempty
        · simpa using hword

lemma resolveTo_of_not_variable (h : ¬ IsVariable ctx text) (depth depth' : Nat) :
    resolveTo index lineage depth text ctx = resolveTo index lineage depth' text ctx := by
  cases depth <;> cases depth' <;> exact resolveErased_of_not_variable h _ _

/-- The induction is on how many bounds can be followed. -/
lemma erases_resolveTo (h : IsVariable ctx text) (depth depth' : Nat) :
    Erases ctx (resolveTo index lineage depth' · ctx) depth text
      (resolveTo index lineage depth text ctx) := by
  induction depth generalizing text with
  | zero =>
    obtain ⟨v, dims, hv⟩ := h
    have hended : Erases ctx (resolveTo index lineage depth' · ctx) 0 text _ :=
      .ended (Nat.le_refl 0) (.here text) hv (.inr rfl)
    rw [resolveTo, resolveErased_of_stands hv]
    cases v.bound <;> simpa using hended
  | succ depth ih =>
    obtain ⟨v, dims, hv⟩ := h
    rw [resolveTo, resolveErased_of_stands hv]
    cases hbound : v.bound with
    | none =>
      have hended : Erases ctx (resolveTo index lineage depth' · ctx) (depth + 1) text _ :=
        .ended (Nat.zero_le _) (.here text) hv (.inl hbound)
      simpa using hended
    | some bound =>
      simp only [map_some, getD_some]
      by_cases hvariable : IsVariable ctx bound
      · exact (ih hvariable).bound hv hbound
      · have hreached : Erases ctx (resolveTo index lineage depth' · ctx) (depth + 1) text _ :=
          .reached (Nat.succ_le_succ (Nat.zero_le depth)) (.bound hv hbound (.here bound)) hvariable
        rw [resolveTo_of_not_variable hvariable depth depth']
        simpa using hreached

end

/-- Whatever is remembered, a type variable is bound to what its bounds lead to within eight steps.
-/
theorem erases_of_variable (index : TypeIndex) {ctx : Context} {text : String}
    (h : IsVariable ctx text) :
    Erases ctx (index.resolve · ctx) 8 text (index.resolve text ctx) :=
  erases_resolveTo h boundDepth boundDepth

/-- The variables bound each other, so that the root class is found after eight bounds, with the
brackets of four of them and those that are written. The inner one of two variables `T` counts. -/
theorem erases_of_cyclic_variables :
    let ctx : Context := { typeVariables := [⟨"T", none⟩, ⟨"T", some "U []"⟩, ⟨"U", some "T"⟩] }
    IsVariable ctx "T[]" ∧
      ((TypeIndex.ofTypes []).resolve "T[]" ctx {}).1 =
        some "java.lang.Object[][][][][]" ∧
      Erases ctx ((TypeIndex.ofTypes []).resolve · ctx) 8 "T[]"
        ((TypeIndex.ofTypes []).resolve "T[]" ctx) := by
  intro ctx
  have hvariable : IsVariable ctx "T[]" :=
    ⟨⟨"T", some "U []"⟩, 1, dimensioned_splitArray "T[]", by decide, by decide, [⟨"T", none⟩],
      [⟨"U", some "T"⟩], rfl, by decide⟩
  exact ⟨hvariable, by decide +kernel, erases_of_variable _ hvariable⟩

end Xref.Resolve
