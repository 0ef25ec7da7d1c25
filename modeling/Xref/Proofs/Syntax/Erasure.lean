import Xref.Proofs.Resolve.Soundness
import Xref.Proofs.Syntax.Twin
import Xref.Proofs.Text.Pieces
import Xref.Syntax.TypeText

/-!
# Erased types

What is left of a written type without its type arguments, annotations and comments are names, dots
and pairs of brackets. The erased text is made of these, but its dimensions are counted in the text
of the source. So a bracket in an annotation or in a comment between them counts as one of theirs.
-/
open List

namespace Xref.Syntax.Tree

open Java Resolve Text

def isErased (t : Tree) : Bool :=
  t.kind.isComment || [.typeArguments, .annotationUse, .annotationMarker].contains t.kind

def kept (t : Tree) : List Tree := t.children.filter fun c => !c.isErased

def isTypeWord (t : Tree) : Bool :=
  [.typeIdentifier, .integralType, .floatingPointType, .booleanType, .voidType].contains t.kind

def isClassName (t : Tree) : Bool :=
  [.typeIdentifier, .scopedTypeIdentifier, .genericType].contains t.kind

/-- What a type is made of, and how many `[` the source has in its dimensions. -/
structure Parts where
  names : List String
  pairs : Nat
  opened : Nat
  deriving DecidableEq

/-- One step of `parts?`, from the parts of the children. -/
def partsFrom (source : List Char) (t : Tree) (cs : Valued (Option Parts)) : Option Parts :=
  match t.kind, cs.filter fun c => !c.1.isErased with
  | .genericType, [(c, some p)] =>
    if [.typeIdentifier, .scopedTypeIdentifier].contains c.kind then some p else none
  | .scopedTypeIdentifier, [(c, some p), (dot, _), (name, some q)] =>
    if c.isClassName && dot.isLiteral "." && name.kind == .typeIdentifier then
      some ⟨p.names ++ q.names, 0, 0⟩
    else none
  | .arrayType, [(c, some p), (dims, _)] =>
    if c.role == some .element && dims.role == some .dimensions &&
        t.children.all fun c => !c.isErased || c.role.isNone then
      some ⟨p.names, p.pairs + dims.children.countP (isLiteral "["),
        p.opened + countDims source (some dims)⟩
    else none
  | .annotatedType, [(c, some p)] => if c.kind.isType then some p else none
  | _, _ => if t.isTypeWord then some ⟨[trim (t.text source)], 0, 0⟩ else none

/-- The parts of a tree that has the form in which types are written, at any nesting: a word, or
what is qualified, has type arguments, has dimensions or is annotated. -/
def parts? (source : List Char) : Tree → Option Parts := fold (partsFrom source)

section

variable {source : List Char} {t c : Tree} {p : Parts}

lemma filter_kept {test : Tree → Bool} (h : ∀ c ∈ t.children, test c → c.isErased = false) :
    t.children.filter test = t.kept.filter test := by
  rw [kept, filter_filter]
  refine filter_congr fun c hc => ?_
  cases htest : test c with
  | false => rfl
  | true => simp [h c hc htest]

lemma find?_kept {test : Tree → Bool} (h : ∀ c ∈ t.children, test c → c.isErased = false) :
    t.children.find? test = t.kept.find? test := by
  rw [← head?_filter, ← head?_filter, filter_kept h]

lemma isErased_of_type (h : c.kind.isType) : c.isErased = false := by
  revert h
  unfold isErased
  cases c.kind <;> decide

lemma isType_of_className (h : c.isClassName) : c.kind.isType := by
  revert h
  unfold isClassName
  cases c.kind <;> decide

lemma isClassName_of_literal {word : String} (h : c.isLiteral word) : c.isClassName = false := by
  unfold isLiteral at h
  split at h
  case h_1 => rfl
  case h_2 => cases h

structure Spells (source : List Char) (t : Tree) (p : Parts) : Prop where
  names : p.names ≠ []
  className : t.isClassName → p.opened = 0
  erased : t.erased source = withDims (joinWith "." p.names) p.opened

/-- What has only one part left is spelled like that part. -/
lemma Spells.of_part (h : Spells source c p) (herased : t.erased source = c.erased source)
    (hname : t.isClassName → c.isClassName) : Spells source t p :=
  ⟨h.names, fun ht => h.className (hname ht), herased.trans h.erased⟩

lemma spells_word (h : t.isTypeWord) : Spells source t ⟨[trim (t.text source)], 0, 0⟩ := by
  refine ⟨cons_ne_nil _ _, fun _ => rfl, ?_⟩
  rw [withDims_zero, erased_eq, erasedFrom]
  revert h
  unfold isTypeWord
  cases t.kind <;> simp [joinWith]

lemma Spells.generic (h : Spells source c p) (hkind : t.kind = .genericType) (hkept : t.kept = [c])
    (hname : [Kind.typeIdentifier, .scopedTypeIdentifier].contains c.kind) : Spells source t p := by
  have hfound :
    t.children.find? (fun c => [.typeIdentifier, .scopedTypeIdentifier].contains c.kind) =
      some c := by
    rw [find?_kept, hkept, find?_cons, hname]
    intro c _
    unfold isErased
    cases c.kind <;> decide
  refine h.of_part ?_ fun _ => ?_
  · rw [erased_eq, erasedFrom, hkind]
    simp only [find?_map, Function.comp_def, hfound, Option.map_some]
  · simp only [contains_cons, isClassName, contains_nil, Bool.or_false] at hname ⊢
    rw [← Bool.or_assoc, hname, Bool.true_or]

lemma Spells.scoped (h : Spells source c p) (hkind : t.kind = .scopedTypeIdentifier)
    {dot name : Tree} {q : Parts} (hkept : t.kept = [c, dot, name]) (hc : c.isClassName)
    (hdot : dot.isClassName = false) (hname : name.isClassName) (hq : Spells source name q) :
    Spells source t ⟨p.names ++ q.names, 0, 0⟩ := by
  have hsegments : t.children.filter isClassName = [c, name] := by
    rw [filter_kept fun c _ hc => isErased_of_type (isType_of_className hc), hkept]
    simp [hc, hdot, hname]
  have hmap : ((t.children.map fun c => (c, c.erased source)).filter fun c => c.1.isClassName) =
      [(c, c.erased source), (name, name.erased source)] := by
    rw [filter_map]
    exact congrArg (map fun c => (c, c.erased source)) hsegments
  have herased : t.erased source = joinWith "." [c.erased source, name.erased source] := by
    rw [erased_eq, erasedFrom, hkind]
    exact congrArg (fun cs : Valued String => joinWith "." (cs.map Prod.snd)) hmap
  refine ⟨by simp [h.names], fun _ => rfl, ?_⟩
  rw [herased, h.erased, hq.erased, h.className hc, hq.className hname, withDims_zero,
    withDims_zero, withDims_zero, joinWith_append h.names hq.names]
  simp [joinWith]

lemma Spells.array (h : Spells source c p) (hkind : t.kind = .arrayType) {dims : Tree} {n : Nat}
    (hkept : t.kept = [c, dims]) (helement : c.role = some .element)
    (hdims : dims.role = some .dimensions) (hroles : ∀ c ∈ t.children, c.isErased → c.role = none) :
    Spells source t ⟨p.names, n, p.opened + countDims source (some dims)⟩ := by
  have hrole (r : Role) : ∀ c ∈ t.children, c.role == some r → c.isErased = false := by
    intro c hc hrole
    by_contra herased
    rw [hroles c hc (by simpa using herased)] at hrole
    cases hrole
  have hfirst : t.child? .element = some c := by
    rw [child?, find?_kept (hrole .element), hkept]
    simp [helement]
  have hlast : t.child? .dimensions = some dims := by
    rw [child?, find?_kept (hrole .dimensions), hkept]
    simp [helement, hdims]
  have hvalued : Valued.child? (t.children.map fun c => (c, c.erased source)) .element =
      some (c, c.erased source) := by
    rw [Valued.child?, find?_map]
    exact congrArg (Option.map fun c => (c, c.erased source)) hfirst
  refine ⟨h.names, fun hname => by simp [isClassName, hkind] at hname, ?_⟩
  rw [erased_eq, erasedFrom, hkind]
  simp only [hvalued, hlast, Option.map_some, Option.getD_some]
  rw [h.erased, withDims_withDims]

lemma Spells.annotated (h : Spells source c p) (hkind : t.kind = .annotatedType)
    (hkept : t.kept = [c]) (hc : c.kind.isType) : Spells source t p := by
  have hlast : t.children.reverse.find? (fun c => c.kind.isType) = some c := by
    rw [← head?_filter, filter_reverse, filter_kept fun c _ hc => isErased_of_type hc, hkept]
    simp [hc]
  refine h.of_part ?_ fun ht => by simp [isClassName, hkind] at ht
  rw [erased_eq, erasedFrom, hkind]
  simp only [← map_reverse, find?_map, Function.comp_def, hlast, Option.map_some, Option.getD_some]

lemma spells_of_parts (h : t.parts? source = some p) : Spells source t p := by
  induction t using Tree.induction generalizing p with
  | step t ih =>
    have hkept : ((t.children.map fun c => (c, c.parts? source)).filter fun c => !c.1.isErased) =
        t.kept.map fun c => (c, c.parts? source) := by
      rw [filter_map]
      rfl
    have hpart {c : Tree} {p : Parts} (hc : c ∈ t.kept) (h : c.parts? source = some p) :=
      ih c (mem_filter.mp hc).1 h
    rw [parts?, fold_eq, partsFrom, ← parts?, hkept] at h
    split at h
    case h_1 c q hkind hmap =>
      simp only [map_eq_cons_iff, map_eq_nil_iff, Prod.mk.injEq] at hmap
      obtain ⟨_, _, hkept, ⟨rfl, hq⟩, rfl⟩ := hmap
      obtain ⟨hname, ⟨⟩⟩ := Option.ite_none_right_eq_some.mp h
      exact (hpart (by simp [hkept]) hq).generic hkind hkept hname
    case h_2 c q dot _ name r hkind hmap =>
      simp only [map_eq_cons_iff, map_eq_nil_iff, Prod.mk.injEq] at hmap
      obtain ⟨_, _, hkept, ⟨rfl, hq⟩, _, _, rfl, ⟨rfl, -⟩, _, _, rfl, ⟨rfl, hr⟩, rfl⟩ := hmap
      obtain ⟨hform, ⟨⟩⟩ := Option.ite_none_right_eq_some.mp h
      simp only [Bool.and_eq_true, beq_iff_eq] at hform
      refine (hpart (by simp [hkept]) hq).scoped hkind hkept hform.1.1
        (isClassName_of_literal hform.1.2) ?_ (hpart (by simp [hkept]) hr)
      rw [isClassName, hform.2]
      rfl
    case h_3 c q dims _ hkind hmap =>
      simp only [map_eq_cons_iff, map_eq_nil_iff, Prod.mk.injEq] at hmap
      obtain ⟨_, _, hkept, ⟨rfl, hq⟩, _, _, rfl, ⟨rfl, -⟩, rfl⟩ := hmap
      obtain ⟨hform, ⟨⟩⟩ := Option.ite_none_right_eq_some.mp h
      simp only [Bool.and_eq_true, beq_iff_eq] at hform
      refine (hpart (by simp [hkept]) hq).array hkind hkept hform.1.1 hform.1.2 fun c hc
        herased => ?_
      simpa [herased] using all_eq_true.mp hform.2 c hc
    case h_4 c q hkind hmap =>
      simp only [map_eq_cons_iff, map_eq_nil_iff, Prod.mk.injEq] at hmap
      obtain ⟨_, _, hkept, ⟨rfl, hq⟩, rfl⟩ := hmap
      obtain ⟨htype, ⟨⟩⟩ := Option.ite_none_right_eq_some.mp h
      exact (hpart (by simp [hkept]) hq).annotated hkind hkept htype
    case h_5 =>
      obtain ⟨hword, ⟨⟩⟩ := Option.ite_none_right_eq_some.mp h
      exact spells_word hword

lemma withDims_injective (base : String) : Function.Injective (withDims base) := by
  intro n k h
  have hlength : n * 2 = k * 2 := by
    simpa [withDims] using congrArg (fun s => s.toList.length) h
  omega

end

/-- Of two types that differ only in type arguments, annotations and comments, the erased texts are
the same where their dimensions have as many `[` in the source. So erasure ignores all of these, and
has a pair of brackets for each pair of the dimensions, where the dimensions have no `[` but their
own. -/
theorem erased_of_parts {source source' : List Char} {t t' : Tree} {p p' : Parts}
    (ht : t.parts? source = some p) (ht' : t'.parts? source' = some p')
    (hnames : p.names = p'.names) (hpairs : p.pairs = p'.pairs) :
    (t.erased source = t'.erased source' ↔ p.opened = p'.opened) ∧
      (p.opened = p.pairs → t.erased source = withDims (joinWith "." p.names) p.pairs ∧
        (p'.opened = p'.pairs → t.erased source = t'.erased source')) := by
  have h := (spells_of_parts ht).erased
  have h' := (spells_of_parts ht').erased
  rw [← hnames] at h'
  have hiff : t.erased source = t'.erased source' ↔ p.opened = p'.opened := by
    rw [h, h', (withDims_injective _).eq_iff]
  refine ⟨hiff, fun hown => ⟨hown ▸ h, fun hown' => hiff.mpr ?_⟩⟩
  rw [hown, hown', hpairs]

def arrayTypes : Tree → List Tree :=
  fold fun t cs => (if t.kind == .arrayType then [t] else []) ++ cs.flatMap Prod.snd

/-- Type arguments, annotations and comments make no difference. -/
theorem erased_of_annotated_arrays :
    let source := "class A { void m(a.B<C[]> @N(d) [] x, a.@N B[/**/] y) {} }".toList
    ∃ unit t t', parse? source = some unit ∧ (arrayTypes unit).head? = some t ∧
      (arrayTypes unit).getLast? = some t' ∧ t.parts? source = some ⟨["a", "B"], 1, 1⟩ ∧
      t'.parts? source = some ⟨["a", "B"], 1, 1⟩ ∧ t.erased source = t'.erased source := by
  intro source
  obtain ⟨unit, hunit, t, hfirst, t', hlast, ht, ht'⟩ : ∃ unit, parse? source = some unit ∧
      ∃ t, (arrayTypes unit).head? = some t ∧ ∃ t', (arrayTypes unit).getLast? = some t' ∧
        t.parts? source = some ⟨["a", "B"], 1, 1⟩ ∧ t'.parts? source = some ⟨["a", "B"], 1, 1⟩ := by
    decide +kernel
  exact ⟨unit, t, t', hunit, hfirst, hlast, ht, ht', ((erased_of_parts ht ht' rfl rfl).2 rfl).2 rfl⟩

/-- A `[` in an annotation or in a comment between the dimensions is counted. -/
theorem erased_of_stray_brackets :
    let source := "class A { void m(int @N(a[0]) [] x, int [/*[*/] y, int [] z) {} }".toList
    ∃ unit, parse? source = some unit ∧
      (arrayTypes unit).map (fun t => ((t.parts? source).map Parts.pairs, t.erased source)) =
        [(some 1, "int[][]"), (some 1, "int[][]"), (some 1, "int[]")] := by
  decide +kernel

end Xref.Syntax.Tree
