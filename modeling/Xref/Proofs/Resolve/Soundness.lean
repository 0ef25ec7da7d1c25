import Mathlib.Tactic.Lemma
import Xref.Resolve.Member

/-!
# Names that the index vouches for

A written type is bound to an element type with brackets after it. Whichever rule of scope binds the
element type, it is a keyword or a name that the index contains. Only a type variable can stand for
the root class where the index has none, and only it brings brackets of its own.
-/
open List Option

namespace Xref.Resolve

open Java Text

/-- `text` is `base` with so many pairs of brackets after it. White space can stand around the base
and around each pair. -/
structure Dimensioned (text base : String) (dims : Nat) : Prop where
  written : ∃ (lead last : List Char) (gaps : List (List Char)),
    text.toList = lead ++ base.toList ++ gaps.flatMap (· ++ ['[', ']']) ++ last ∧
      gaps.length = dims ∧ ∀ gap ∈ lead :: last :: gaps, gap.all isBlank
  first : base.toList.head?.all (!isBlank ·)
  last : base.toList.getLast?.all (!isBlank ·)
  bare : ¬ ['[', ']'] <:+ base.toList

/-- What is read off the end of a text, back to front, together with what is left of it. -/
lemma dropDims_written (cs : List Char) : ∃ (last : List Char) (gaps : List (List Char)),
    cs.reverse = (dropDims cs).1.reverse ++ gaps.flatMap (· ++ ['[', ']']) ++ last ∧
      gaps.length = (dropDims cs).2 ∧ ∀ gap ∈ last :: gaps, gap.all isBlank := by
  fun_induction dropDims cs with
  | case1 rest base dims hrest ih =>
    obtain ⟨last, gaps, hcs, hdims, hblank⟩ := ih
    simp only [hrest] at hcs hdims
    refine ⟨[], gaps ++ [last], ?_, by simp [hdims], ?_⟩
    · simp [hcs]
    · intro gap hgap
      simp only [mem_cons, mem_append, not_mem_nil, or_false] at hgap
      rcases hgap with rfl | hgap | rfl
      · rfl
      · exact hblank gap (mem_cons_of_mem _ hgap)
      · exact hblank gap mem_cons_self
  | case2 c rest _ hc ih =>
    obtain ⟨last, gaps, hcs, hdims, hblank⟩ := ih
    refine ⟨last ++ [c], gaps, by simp [hcs], hdims, ?_⟩
    rw [forall_mem_cons] at hblank ⊢
    exact ⟨by simp [all_append, hblank.1, hc], hblank.2⟩
  | case3 c rest _ hc => exact ⟨[], [], by simp, rfl, by simp⟩
  | case4 => exact ⟨[], [], by simp, rfl, by simp⟩

lemma dropDims_first (cs : List Char) :
    (dropDims cs).1.head?.all (!isBlank ·) ∧ ¬ [']', '['] <+: (dropDims cs).1 := by
  fun_induction dropDims cs with
  | case1 rest base dims hrest ih => simpa [hrest] using ih
  | case2 c rest _ hc ih => exact ih
  | case3 c rest hne hc =>
    refine ⟨by simpa using hc, ?_⟩
    rintro ⟨tail, htail⟩
    obtain ⟨rfl, rfl⟩ := List.cons.inj htail
    exact hne tail rfl rfl
  | case4 => simp

lemma dropDims_replicate (n : Nat) (cs : List Char) :
    dropDims ((List.replicate n [']', '[']).flatten ++ cs) =
      ((dropDims cs).1, (dropDims cs).2 + n) := by
  induction n with
  | zero => rfl
  | succ n ih =>
    simp only [replicate_succ, flatten_cons, cons_append, nil_append, dropDims, ih]
    rfl

lemma splitArray_withDims (s : String) (n : Nat) :
    splitArray (withDims s n) = ((splitArray s).1, (splitArray s).2 + n) := by
  have hreverse : (withDims s n).toList.reverse =
      (List.replicate n [']', '[']).flatten ++ s.toList.reverse := by
    simp [withDims, reverse_flatten]
  simp only [splitArray, hreverse, dropDims_replicate]

lemma dimensioned_splitArray (text : String) :
    Dimensioned text (splitArray text).1 (splitArray text).2 := by
  obtain ⟨last, gaps, hcs, hdims, hblank⟩ := dropDims_written text.toList.reverse
  obtain ⟨hfirst, hbare⟩ := dropDims_first text.toList.reverse
  have hbase : (splitArray text).1.toList =
      (dropDims text.toList.reverse).1.reverse.dropWhile isBlank := by simp [splitArray]
  rw [reverse_reverse] at hcs
  generalize (dropDims text.toList.reverse).1 = left at hcs hfirst hbare hbase
  have hsplit : left.reverse = left.reverse.takeWhile isBlank ++ (splitArray text).1.toList := by
    rw [hbase, takeWhile_append_dropWhile]
  refine ⟨⟨left.reverse.takeWhile isBlank, last, gaps, ?_, hdims, ?_⟩, ?_, ?_, ?_⟩
  · rw [← hsplit, hcs]
  · exact forall_mem_cons.mpr ⟨all_takeWhile, hblank⟩
  · have hnot := head?_dropWhile_not isBlank left.reverse
    rw [← hbase] at hnot
    cases h : (splitArray text).1.toList.head? with
    | none => rfl
    | some c =>
      rw [h] at hnot
      exact Bool.not_eq_true' _ |>.mpr hnot
  · cases h : (splitArray text).1.toList.getLast? with
    | none => rfl
    | some c =>
      have hlast := congrArg List.getLast? hsplit
      rw [getLast?_append, h, some_or, getLast?_reverse] at hlast
      rw [hlast] at hfirst
      exact hfirst
  · intro hend
    have hfull : ['[', ']'] <:+ left.reverse := hsplit ▸ hend.trans (suffix_append _ _)
    exact hbare (by simpa using List.reverse_prefix.mpr hfull)

/-- If the question has an answer at all, it passes `P`. -/
def Query.Gives (P : String → Prop) (x : Query (Option String)) : Prop :=
  ∀ m a, (x m).1 = some a → P a

namespace Query.Gives

variable {α : Type} {P Q : String → Prop} {x y : Query (Option String)}
  {f : α → Query (Option String)}

lemma none : Gives P (pure none) := by
  intro m a h
  cases h

lemma some {a : String} (h : P a) : Gives P (pure (some a)) := by
  intro m b hb
  cases hb
  exact h

lemma last {x : Query α} (hf : ∀ a, Gives P (f a)) : Gives P (x >>= f) :=
  fun m => hf (x m).1 (x m).2

lemma bind {f : Option String → Query (Option String)} (hx : Gives Q x)
    (hsome : ∀ a, Q a → Gives P (f (.some a))) (hnone : Gives P (f .none)) : Gives P (x >>= f) := by
  intro m a h
  cases hfound : (x m).1 with
  | none => exact hnone (x m).2 a (hfound ▸ h)
  | some b => exact hsome b (hx m b hfound) (x m).2 a (hfound ▸ h)

lemma orElse (hx : Gives P x) (hy : Gives P y) : Gives P (Query.orElse x y) :=
  hx.bind (fun _ ha => .some ha) hy

lemma firstSome {l : List α} (hf : ∀ a ∈ l, Gives P (f a)) : Gives P (Query.firstSome f l) := by
  induction l with
  | nil => exact .none
  | cons a l ih =>
    rw [forall_mem_cons] at hf
    exact hf.1.bind (fun _ hb => .some hb) (ih hf.2)

end Query.Gives

section

variable {index : TypeIndex} {lineage : Lineage}

/-- A type whose name ends with the segment `s` passes `P`. -/
structure Admits (index : TypeIndex) (P : String → Prop) (s : String) : Prop where
  plain : index.contains s → P s
  dot : ∀ x, index.contains (x ++ "." ++ s) → P (x ++ "." ++ s)
  member : ∀ x, index.contains (x ++ "$" ++ s) → P (x ++ "$" ++ s)

variable {P : String → Prop} {s : String} {segments : List String} {ctx : Context}

lemma gives_ifIndexed {name : String} (hname : index.contains name → P name) :
    Query.Gives P (pure (ifIndexed index name)) := by
  unfold ifIndexed
  split
  next hcontains => exact .some (hname hcontains)
  next => exact .none

namespace Admits

variable (h : Admits index P s)
include h

lemma qualified (package : String) (hcontains : index.contains (qualify package s)) :
    P (qualify package s) := by
  unfold qualify at hcontains ⊢
  split at hcontains
  next hempty => exact if_pos hempty ▸ h.plain hcontains
  next hempty => exact if_neg hempty ▸ h.dot package hcontains

lemma findMemberType (owner : String) : (findMemberType index lineage owner s).Gives P := by
  refine .last fun line m name hname => ?_
  obtain ⟨t, -, rfl⟩ := mem_map.mp (mem_of_find?_eq_some hname)
  exact h.member t (find?_some (p := index.contains) hname)

lemma memberOf (qualifier : String) : Query.Gives P (do
    let some owner ← resolveQualified index lineage qualifier | return none
    Resolve.findMemberType index lineage owner s) :=
  .bind (Q := fun _ => True) (fun _ _ _ => trivial) (fun owner _ => h.findMemberType owner) .none

end Admits

/-- Of the members that are walked to, only the last one matters. -/
lemma gives_walkMemberTypes {head : String} (hhead : segments = [] → P head)
    (hlast : ∀ last ∈ segments.getLast?, Admits index P last) :
    (walkMemberTypes index lineage head segments).Gives P := by
  induction segments generalizing head with
  | nil => exact .some (hhead rfl)
  | cons segment rest ih =>
    refine .bind (Q := fun next => rest = [] → P next) ?_ (fun next hnext => ih hnext ?_) .none
    · rintro m next hnext rfl
      exact (hlast segment (by simp)).findMemberType head m next hnext
    · exact fun last h => hlast last (by simp_all [getLast?_cons])

lemma gives_resolveSegments (hlast : ∀ last ∈ segments.getLast?, Admits index P last) :
    (resolveSegments index lineage segments).Gives P := by
  refine .firstSome fun k _ => ?_
  split
  next => exact .none
  next simple members hdrop =>
    have hrest : ∀ last ∈ (simple :: members).getLast?, Admits index P last := by
      rw [← hdrop, getLast?_drop]
      split
      · simp
      · exact hlast
    dsimp only
    split
    next hcontains =>
      refine gives_walkMemberTypes ?_ fun last h => hrest last (by simp_all [getLast?_cons])
      rintro rfl
      exact (hrest simple (by simp)).qualified _ hcontains
    next => exact .none

section

variable (henclosing : ∀ e ∈ ctx.enclosing, index.contains e → P e)
  (himports : ∀ i ∈ ctx.imports, ∀ last ∈ (split '.' i.name).getLast?, Admits index P last)
include henclosing himports

/-- Each of the six rules answers with a type around the place or with one that ends with a segment
that is written. -/
lemma gives_resolveSimple (h : Admits index P s) :
    (resolveSimple index lineage s ctx).Gives P := by
  refine .orElse (.orElse (.orElse (.orElse (.orElse ?_ ?_) ?_) ?_) ?_) ?_
  · refine .firstSome fun e he => ?_
    split
    next hown => exact .some (henclosing e he (Bool.and_eq_true_iff.mp hown).2)
    next => exact h.findMemberType e
  · refine .firstSome fun i hi => ?_
    split
    next => exact gives_resolveSegments (himports i (mem_filter.mp hi).1)
    next => exact .none
  · refine .firstSome fun i _ => ?_
    split
    next => exact .none
    next =>
      split
      next qualifier _ => exact h.memberOf qualifier
      next => exact .none
  · exact gives_ifIndexed (h.qualified _)
  · refine .firstSome fun i _ => ?_
    have hdirect : Query.Gives P (pure (if i.isStatic then none
        else ifIndexed index (i.name ++ "." ++ s))) := by
      split
      next => exact .none
      next => exact gives_ifIndexed (h.dot _)
    dsimp only
    generalize (if i.isStatic then none else ifIndexed index (i.name ++ "." ++ s)) = direct
      at hdirect ⊢
    split
    next => exact hdirect
    next => exact h.memberOf i.name
  · exact gives_ifIndexed (h.dot "java.lang")

lemma gives_resolveClassName {name : String}
    (hlast : ∀ last ∈ ((split '.' name).map trim).getLast?, Admits index P last) :
    (resolveClassName index lineage name ctx).Gives P := by
  refine .orElse ?_ ?_
  · unfold resolveInScope
    split
    next => exact .none
    next first rest hsegments =>
      rw [hsegments] at hlast
      refine .bind (Q := fun head => rest = [] → P head) ?_ (fun head hhead =>
        gives_walkMemberTypes hhead fun last h => hlast last (by simp_all [getLast?_cons])) .none
      rintro m head hhead rfl
      exact gives_resolveSimple henclosing himports (hlast first (by simp)) m head hhead
  · split
    next => exact gives_resolveSegments hlast
    next => exact .none

end

abbrev Vouched (index : TypeIndex) (x : Query (Option String)) : Prop :=
  x.Gives fun name => index.contains name

lemma admits_contains (s : String) : Admits index (fun name => index.contains name) s :=
  ⟨id, fun _ => id, fun _ => id⟩

lemma vouched_resolveSegments (segments : List String) :
    Vouched index (resolveSegments index lineage segments) :=
  gives_resolveSegments fun _ _ => admits_contains _

lemma vouched_resolveClassName (name : String) (ctx : Context) :
    Vouched index (resolveClassName index lineage name ctx) :=
  gives_resolveClassName (fun _ _ h => h) (fun _ _ _ _ => admits_contains _)
    fun _ _ => admits_contains _

def Known (index : TypeIndex) (b : String) : Prop :=
  isPrimitive b ∨ b = objectName ∨ index.contains b

/-- `r` is what a text can be bound to whose element type is `base`, with `own` pairs of brackets
after it. -/
structure Denotes (index : TypeIndex) (ctx : Context) (base : String) (own : Nat) (r b : String)
    (n : Nat) : Prop where
  shape : r = withDims b n
  known : Known index b
  /-- Only a type variable brings brackets of its own. -/
  dims : ctx.typeVariable? base = none → n = own
  /-- Only a type variable stands for a root class that the index does not have. -/
  root : b = objectName → index.contains b = false →
    isPrimitive base = false ∧ ∃ v, ctx.typeVariable? base = some v

lemma withDims_zero (base : String) : withDims base 0 = base := by simp [withDims]

lemma withDims_withDims (base : String) (n k : Nat) :
    withDims (withDims base n) k = withDims base (n + k) := by
  simp [withDims, ← replicate_append_replicate]

lemma objectName_not_primitive : isPrimitive objectName = false := by decide

lemma Denotes.withDims {ctx : Context} {base r b : String} {own n : Nat}
    (h : Denotes index ctx base own r b n) (k : Nat) :
    Denotes index ctx base (k + own) (withDims r k) b (k + n) where
  shape := by rw [h.shape, withDims_withDims, Nat.add_comm]
  known := h.known
  dims hnone := by rw [h.dims hnone]
  root := h.root

section

variable {follow : String → Query String}
  (hfollow : ∀ bound m, ∃ b n, (follow bound m).1 = withDims b n ∧ Known index b)
include hfollow

/-- A text without brackets. The three cases are those of `resolveElement`. -/
lemma denotes_resolveElement (base : String) (ctx : Context) :
    (resolveElement index lineage follow base ctx).Gives fun r =>
      ∃ b n, Denotes index ctx base 0 r b n := by
  unfold resolveElement
  split
  next hprimitive =>
    refine .some ⟨base, 0, (withDims_zero base).symm, .inl hprimitive, fun _ => rfl, ?_⟩
    rintro rfl
    simp [objectName_not_primitive] at hprimitive
  next hprimitive =>
    cases hv : ctx.typeVariable? base with
    | some v =>
      intro m r hr
      obtain ⟨b, n, hshape, hknown⟩ :
          ∃ b n, ((v.bound.map follow).getD (pure objectName) m).1 = withDims b n ∧
            Known index b := by
        cases v.bound with
        | none => exact ⟨objectName, 0, (withDims_zero objectName).symm, .inr (.inl rfl)⟩
        | some bound => exact hfollow bound m
      obtain rfl : ((v.bound.map follow).getD (pure objectName) m).1 = r := some.inj hr
      exact ⟨b, n, hshape, hknown, fun hnone => by simp [hv] at hnone,
        fun _ _ => ⟨by simpa using hprimitive, v, hv⟩⟩
    | none =>
      intro m r hr
      have hr := vouched_resolveClassName base ctx m r hr
      refine ⟨r, 0, (withDims_zero r).symm, .inr (.inr hr), fun _ => rfl, ?_⟩
      intro _ habsent
      simp [hr] at habsent

lemma denotes_resolveErased (text : String) (ctx : Context) :
    (resolveErased index lineage follow text ctx).Gives fun r =>
      (splitArray text).1 ≠ "" ∧
        ∃ b n, Denotes index ctx (splitArray text).1 (splitArray text).2 r b n := by
  unfold resolveErased
  split
  next => exact .none
  next hempty =>
    refine (denotes_resolveElement hfollow _ ctx).bind (fun r ⟨b, n, h⟩ => ?_) .none
    exact .some ⟨by simpa using hempty, b, _, h.withDims (splitArray text).2⟩

end

/-- A type variable is followed to its bound; the induction is on how often that can happen. -/
lemma denotes_resolveTo (depth : Nat) (text : String) (ctx : Context) :
    (resolveTo index lineage depth text ctx).Gives fun r =>
      (splitArray text).1 ≠ "" ∧
        ∃ b n, Denotes index ctx (splitArray text).1 (splitArray text).2 r b n := by
  have hroot : ∃ b n, objectName = withDims b n ∧ Known index b :=
    ⟨objectName, 0, (withDims_zero objectName).symm, .inr (.inl rfl)⟩
  induction depth generalizing text with
  | zero => exact denotes_resolveErased (fun _ _ => hroot) text ctx
  | succ depth ih =>
    refine denotes_resolveErased (fun bound m => ?_) text ctx
    change ∃ b n, ((resolveTo index lineage depth bound ctx m).1).getD objectName = _ ∧ _
    cases h : (resolveTo index lineage depth bound ctx m).1 with
    | none => exact hroot
    | some r =>
      obtain ⟨_, b, n, hr⟩ := ih bound m r h
      exact ⟨b, n, hr.shape, hr.known⟩

end

/-- Whatever a resolver remembers, it binds a written type to a keyword, the root class or a type of
the index, with the brackets that are written unless a type variable brings more. -/
theorem denotes_of_resolve {index : TypeIndex} {m : Memory} {text r : String} {ctx : Context}
    (h : (index.resolve text ctx m).1 = some r) :
    ∃ base own b n, Dimensioned text base own ∧ Denotes index ctx base own r b n := by
  rw [TypeIndex.resolve, resolveType] at h
  obtain ⟨_, b, n, hr⟩ := denotes_resolveTo boundDepth text ctx m r h
  exact ⟨_, _, b, n, dimensioned_splitArray text, hr⟩

/-- `T` is bounded by an array of `U`, which is bounded by a class, so that one pair of brackets is
written and two are found. -/
theorem denotes_of_bounded_variable :
    let index := TypeIndex.ofTypes [⟨"a.B", "a", .classType, none, [], [], [], default⟩]
    let ctx : Context := { package := "a", typeVariables := [⟨"U", some "B"⟩, ⟨"T", some "U[]"⟩] }
    (index.resolve "T []" ctx {}).1 = some "a.B[][]" ∧
      ∃ base own b n, Dimensioned "T []" base own ∧ Denotes index ctx base own "a.B[][]" b n := by
  intro index ctx
  have hfound : (index.resolve "T []" ctx {}).1 = some "a.B[][]" := by decide +kernel
  exact ⟨hfound, denotes_of_resolve hfound⟩

end Xref.Resolve

