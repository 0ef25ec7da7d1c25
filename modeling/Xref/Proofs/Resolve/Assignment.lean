import Xref.Proofs.Resolve.Independence
import Xref.Proofs.Resolve.Lineage
import Xref.Proofs.Resolve.Soundness

/-!
# Assignability

Between classes, a value can be assigned along the supertypes that the resolver reports, and to the
root class: a preorder if the root class has no supertypes. Arrays are assigned along their element
types, with two slips: an array of boxes goes to an array of primitives, and an array of arrays does
not go to an array of an interface that all arrays have.
-/
namespace Xref.Resolve

open Java

variable {lineage : Lineage} {index : TypeIndex} {m : Memory}

/-- A name that is neither a primitive type nor an array nor the type of `null`. -/
def isClassName (name : String) : Bool :=
  !isPrimitive name && name != nullName && (splitArray name).2 == 0

lemma isClassName_iff {name : String} : isClassName name ↔
    isPrimitive name = false ∧ name ≠ nullName ∧ (splitArray name).2 = 0 := by
  simp [isClassName, and_assoc]

lemma isAssignable_of_classNames {a b : String} (ha : isClassName a) (hb : isClassName b) :
    Resolve.isAssignable lineage a b =
      if a = b ∨ b = objectName then pure true else do return (← lineage a).contains b := by
  obtain ⟨haprimitive, hanull, hadims⟩ := isClassName_iff.mp ha
  obtain ⟨hbprimitive, _, hbdims⟩ := isClassName_iff.mp hb
  unfold Resolve.isAssignable
  by_cases hab : a = b
  · simp [hab]
  · by_cases hobject : b = objectName
    · simp [hobject, hanull, haprimitive, show isPrimitive objectName = false from rfl]
    · simp [hab, hobject, hanull, haprimitive, hbprimitive, hadims, hbdims]

lemma Finds.isAssignable (hm : m.During index []) {a b : String} {r : Bool}
    (ha : isClassName a) (hb : isClassName b) (h : Finds m (index.isAssignable a b) r) :
    r ↔ b = objectName ∨ Relation.ReflTransGen (IsDirect (reportOf index m)) a b := by
  rw [TypeIndex.isAssignable, isAssignable_of_classNames ha hb] at h
  split at h
  case isTrue hshort =>
    obtain rfl := Finds.pure_iff.mp h
    rcases hshort with rfl | hobject
    · simp [Relation.ReflTransGen.refl]
    · simp [hobject]
  case isFalse hlong =>
    obtain ⟨order, horder, h⟩ := Finds.of_bind hm.2 ((Question.lineage a).stable index)
      (fun _ => .pure _) h
    rw [← Finds.pure_iff.mp h, List.contains_iff_mem, horder.isLineage hm |>.mem_iff]
    simp [(not_or.mp hlong).2]

/-- Assignability of classes is a preorder on one resolver, whatever it is asked before, in between
and in which order, if it reports no supertypes of the root class. -/
theorem answer_isAssignable_trans (index : TypeIndex) (run : List Question)
    (hobject : (answer index run (.supertypes objectName)).direct = []) {a b c : String}
    (ha : isClassName a) (hb : isClassName b) (hc : isClassName c)
    {before before' before'' : List Question}
    (hab : before ++ [.isAssignable a b] <+: run) (hbc : before' ++ [.isAssignable b c] <+: run)
    (hac : before'' ++ [.isAssignable a c] <+: run) :
    (∀ history, answer index history (.isAssignable a a) = true) ∧
      (answer index before (.isAssignable a b) = true →
        answer index before' (.isAssignable b c) = true →
          answer index before'' (.isAssignable a c) = true) := by
  have hm := during_after index run
  have hfinds {before : List Question} {s t : String}
      (h : before ++ [.isAssignable s t] <+: run) : Finds (after index run) (index.isAssignable s t)
        (answer index before (.isAssignable s t)) := by
    obtain ⟨more, rfl⟩ := h
    rw [List.append_assoc]
    exact pose_again index before more (.isAssignable s t)
  refine ⟨fun history => ?_, fun hfirst hsecond => ?_⟩
  · have hself : Resolve.isAssignable index.lineage a a = pure true := by
      rw [isAssignable_of_classNames ha ha, if_pos (.inl rfl)]
    exact congrArg (fun x : Query Bool => (x (after index history)).1) hself
  · rw [(hfinds hab).isAssignable hm ha hb] at hfirst
    rw [(hfinds hbc).isAssignable hm hb hc] at hsecond
    refine ((hfinds hac).isAssignable hm ha hc).mpr ?_
    rcases hsecond with rfl | hsecond
    · exact .inl rfl
    · rcases hfirst with rfl | hfirst
      · -- nothing else can be reached from the root class
        left
        cases hsecond.cases_head with
        | inl heq => exact heq.symm
        | inr hstep =>
          obtain ⟨s, hdirect, _⟩ := hstep
          have hnone : s ∈ (answer index run (.supertypes objectName)).direct := hdirect
          rw [hobject] at hnone
          cases hnone
      · exact .inr (hfirst.trans hsecond)

/-- In a hierarchy that goes in circles, a class has all others as supertypes. -/
theorem isAssignable_around_circle :
    let index := TypeIndex.ofTypes [plainType "A" .classType (some "B") [],
      plainType "B" .classType (some "C") [], plainType "C" .classType (some "A") []]
    let run : List Question :=
      [.supertypes "B", .isAssignable "A" "C", .isAssignable "B" "C", .isAssignable "A" "B"]
    (answer index run (.supertypes objectName)).direct = [] ∧
      answer index (run.take 3) (.isAssignable "A" "B") = true ∧
      answer index (run.take 2) (.isAssignable "B" "C") = true ∧
      answer index (run.take 1) (.isAssignable "A" "C") = true := by
  intro index run
  have hobject : (answer index run (.supertypes objectName)).direct = [] := by decide +kernel
  have hfirst : answer index (run.take 3) (.isAssignable "A" "B") = true := by decide +kernel
  have hsecond : answer index (run.take 2) (.isAssignable "B" "C") = true := by decide +kernel
  exact ⟨hobject, hfirst, hsecond, (answer_isAssignable_trans index run hobject (by decide)
    (by decide) (by decide) (List.prefix_refl _) (by simp [run]) (by simp [run])).2 hfirst hsecond⟩

/-- A type by its element type and its number of dimensions. -/
@[ext] structure JavaType where
  base : String
  dims : Nat
  plain : splitArray base = (base, 0)
  notNull : base ≠ nullName

namespace JavaType

variable {s t : JavaType}

def name (t : JavaType) : String := withDims t.base t.dims

def array (t : JavaType) : JavaType := { t with dims := t.dims + 1 }

@[simp] lemma base_array (t : JavaType) : t.array.base = t.base := rfl

@[simp] lemma dims_array (t : JavaType) : t.array.dims = t.dims + 1 := rfl

def isReference (t : JavaType) : Bool := 0 < t.dims || !isPrimitive t.base

lemma splitArray_name (t : JavaType) : splitArray t.name = (t.base, t.dims) := by
  rw [name, splitArray_withDims, t.plain, Nat.zero_add]

lemma name_inj (h : s.name = t.name) : s = t := by
  have hsplit := t.splitArray_name
  rw [← h, splitArray_name] at hsplit
  exact JavaType.ext (congrArg Prod.fst hsplit) (congrArg Prod.snd hsplit)

lemma array_inj (h : s.array = t.array) : s = t :=
  JavaType.ext (show s.array.base = t.array.base by rw [h])
    (Nat.succ.inj (show s.array.dims = t.array.dims by rw [h]))

lemma exists_array (h : 0 < t.dims) : ∃ u : JavaType, t = u.array :=
  ⟨{ t with dims := t.dims - 1 }, JavaType.ext rfl (Nat.sub_add_cancel h).symm⟩

lemma name_array_ne (t : JavaType) {other : String} (h : (splitArray other).2 = 0) :
    t.array.name ≠ other := by
  rintro rfl
  rw [splitArray_name] at h
  cases h

lemma isPrimitive_array (t : JavaType) : isPrimitive t.array.name = false := by
  have hdims : ∀ p ∈ primitives, (splitArray p).2 = 0 := by decide
  refine Bool.eq_false_iff.mpr fun hmem => t.name_array_ne (hdims _ ?_) rfl
  exact List.contains_iff_mem.mp hmem

def arrayInterfaces : List String := ["java.lang.Cloneable", "java.io.Serializable"]

/-- Subtyping between classes and arrays, where `inherits` says it for classes. -/
inductive IsSubtype (inherits : String → String → Prop) : JavaType → JavaType → Prop where
  | refl {t : JavaType} (ht : t.isReference) : IsSubtype inherits t t
  | inherits {s t : JavaType} (hs : s.dims = 0) (ht : t.dims = 0)
      (hclasses : isPrimitive s.base = false ∧ isPrimitive t.base = false)
      (h : inherits s.base t.base) : IsSubtype inherits s t
  | object {s t : JavaType} (hs : s.isReference) (ht : t.dims = 0) (hobject : t.base = objectName) :
      IsSubtype inherits s t
  | interface {s t : JavaType} (hs : 0 < s.dims) (ht : t.dims = 0)
      (hinterface : t.base ∈ arrayInterfaces) : IsSubtype inherits s t
  | array {s t : JavaType} (h : IsSubtype inherits s t) : IsSubtype inherits s.array t.array

lemma isSubtype_iff {inherits : String → String → Prop} (hne : s ≠ t) : IsSubtype inherits s t ↔
    s.dims = t.dims ∧ isPrimitive s.base = false ∧ isPrimitive t.base = false ∧
      (t.base = objectName ∨ inherits s.base t.base) ∨
    t.dims < s.dims ∧ (t.base = objectName ∨ t.base ∈ arrayInterfaces) := by
  constructor
  · intro h
    induction h with
    | refl => exact absurd rfl hne
    | inherits hs ht hclasses h => exact .inl ⟨hs.trans ht.symm, hclasses.1, hclasses.2, .inr h⟩
    | @object s t hs ht hobject =>
      rcases Nat.eq_zero_or_pos s.dims with hzero | hpos
      · refine .inl ⟨hzero.trans ht.symm, by simpa [isReference, hzero] using hs, ?_, .inl hobject⟩
        rw [hobject]
        rfl
      · exact .inr ⟨ht ▸ hpos, .inl hobject⟩
    | interface hs ht hinterface => exact .inr ⟨ht ▸ hs, .inr hinterface⟩
    | array _ ih =>
      exact (ih fun heq => hne (congrArg array heq)).imp (And.imp_left (congrArg (· + 1)))
        (And.imp_left Nat.succ_lt_succ)
  · -- the common dimensions are taken off one by one
    intro h
    generalize hn : t.dims = n
    induction n generalizing s t with
    | zero =>
      rcases h with ⟨hdims, hs, ht, hobject | hinherits⟩ | ⟨hlt, hobject | hinterface⟩
      · exact .object (by simp [isReference, hs]) hn hobject
      · exact .inherits (hdims.trans hn) hn ⟨hs, ht⟩ hinherits
      · exact .object (by simp [isReference, Nat.zero_lt_of_lt hlt]) hn hobject
      · exact .interface (Nat.zero_lt_of_lt hlt) hn hinterface
    | succ n ih =>
      obtain ⟨u, rfl⟩ := exists_array (t := t) (by omega)
      obtain ⟨r, rfl⟩ := exists_array (t := s) (by omega)
      refine .array (ih (fun heq => hne (congrArg array heq)) ?_ (Nat.succ.inj hn))
      exact h.imp (And.imp_left Nat.succ.inj) (And.imp_left Nat.lt_of_succ_lt_succ)

end JavaType

open JavaType

lemma isAssignable_of_arrays {s t : JavaType} (hne : s ≠ t) :
    Resolve.isAssignable lineage s.array.name t.array.name = if s.dims = t.dims then
        if isPrimitive s.base then pure false else Resolve.isAssignable lineage s.base t.base
      else pure (t.dims < s.dims && t.base == objectName) := by
  have hnames : s.array.name ≠ t.array.name := fun h => hne (array_inj (name_inj h))
  have hnull : s.array.name ≠ nullName := s.name_array_ne rfl
  have hobject : t.array.name ≠ objectName := t.name_array_ne rfl
  rw [Resolve.isAssignable]
  simp only [beq_false_of_ne hnames, beq_false_of_ne hnull, beq_false_of_ne hobject,
    isPrimitive_array, splitArray_name, base_array, dims_array]
  by_cases hdims : s.dims = t.dims
  · by_cases hprimitive : isPrimitive s.base <;> simp [hdims, hprimitive]
  · simp [hdims]

/-- A value of the class `boxed` goes to the primitive type after it is unboxed. -/
def Unboxes (boxed primitive : String) : Prop :=
  isPrimitive primitive ∧ ∃ p, unboxOf boxed = some p ∧ (p = primitive ∨ widensTo p primitive)

lemma isAssignable_to_primitive {a b : String} (ha : isPrimitive a = false) (hnull : a ≠ nullName)
    (hb : isPrimitive b) : (Resolve.isAssignable lineage a b m).1 ↔ Unboxes a b := by
  have hne : a ≠ b := by
    rintro rfl
    cases ha.symm.trans hb
  have hcases : Resolve.isAssignable lineage a b =
      (unboxOf a).elim (pure false) (Resolve.isAssignable lineage · b) := by
    rw [Resolve.isAssignable]
    simp only [beq_false_of_ne hne, beq_false_of_ne hnull, ha, hb]
    cases unboxOf a <;> rfl
  rw [hcases, Unboxes]
  cases hp : unboxOf a with
  | none => simp [hb]; rfl
  | some p =>
    have hprimitive := unboxOf_spec hp
    have hpnull : p ≠ nullName := by
      rintro rfl
      cases hprimitive
    rw [Option.elim_some, Resolve.isAssignable]
    by_cases hpb : p = b
    · simp [hpb, hb]; rfl
    · simp [hpb, hpnull, hb, hprimitive]; rfl

/-- Arrays of different types are assigned as subtypes are, but for arrays of arrays to the
interfaces of arrays. Besides, arrays of boxes go to arrays of what they are unboxed to. -/
theorem isAssignable_array (index : TypeIndex) (m : Memory) (s t : JavaType) (hne : s ≠ t) :
    (index.isAssignable s.array.name t.array.name m).1 ↔
      IsSubtype (fun a b => b ∈ (index.lineage a m).1) s t ∧
          ¬ (t.dims < s.dims ∧ t.base ∈ arrayInterfaces) ∨
        s.dims = t.dims ∧ isPrimitive s.base = false ∧ Unboxes s.base t.base := by
  rw [isSubtype_iff hne, TypeIndex.isAssignable, isAssignable_of_arrays hne]
  by_cases hdims : s.dims = t.dims
  · have hbase : s.base ≠ t.base := fun h => hne (JavaType.ext h hdims)
    rw [if_pos hdims]
    cases hs : isPrimitive s.base with
    | true => simp [hdims]; rfl
    | false =>
      cases ht : isPrimitive t.base with
      | true => simp [hdims, isAssignable_to_primitive hs s.notNull ht]
      | false =>
        have hclass {t : JavaType} (ht : isPrimitive t.base = false) : isClassName t.base :=
          isClassName_iff.mpr ⟨ht, t.notNull, congrArg Prod.snd t.plain⟩
        rw [if_neg (by simp), isAssignable_of_classNames (hclass hs) (hclass ht)]
        by_cases hobject : t.base = objectName
        · simp [hdims, hobject]; rfl
        · rw [if_neg (by simp [hbase, hobject])]
          change (index.lineage s.base m).1.contains t.base ↔ _
          simp [hdims, hobject, Unboxes, ht]
  · have hinterface : t.base = objectName → t.base ∉ arrayInterfaces := by
      intro h
      rw [h]
      decide
    rw [if_neg hdims]
    change decide (t.dims < s.dims) && t.base == objectName ↔ _
    grind

/-- An array of any class is an array of objects. -/
theorem isAssignable_to_objects :
    let s : JavaType := ⟨"A", 0, by decide +kernel, by decide⟩
    let t : JavaType := ⟨objectName, 0, by decide +kernel, by decide⟩
    s ≠ t ∧ ((TypeIndex.ofTypes []).isAssignable s.array.name t.array.name {}).1 = true := by
  intro s t
  have hne : s ≠ t := fun h => absurd (congrArg base h) (by decide)
  exact ⟨hne, (isAssignable_array (.ofTypes []) {} s t hne).mpr
    (.inl ⟨.object rfl rfl rfl, fun h => absurd h.1 (Nat.lt_irrefl 0)⟩)⟩

/-- A primitive type is no reference type, and still arrays of its boxes go to its arrays. Arrays
are cloneable, and still arrays of them are no arrays of what is cloneable. -/
theorem isAssignable_of_boxes_and_arrays :
    let boxed : JavaType := ⟨"java.lang.Integer", 0, by decide +kernel, by decide⟩
    let primitive : JavaType := ⟨"int", 0, by decide +kernel, by decide⟩
    let array : JavaType := ⟨"A", 1, by decide +kernel, by decide⟩
    let cloneable : JavaType := ⟨"java.lang.Cloneable", 0, by decide +kernel, by decide⟩
    let assigns := fun s t : JavaType => ((TypeIndex.ofTypes []).isAssignable s.name t.name {}).1
    primitive.isReference = false ∧ assigns boxed.array primitive.array = true ∧
      assigns array cloneable = true ∧ assigns array.array cloneable.array = false := by
  decide +kernel

end Xref.Resolve
