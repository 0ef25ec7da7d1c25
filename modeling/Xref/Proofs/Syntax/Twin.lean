import Mathlib.Data.List.Forall2
import Xref.Proofs.Syntax.Shape
import Xref.Syntax.TypeText

/-!
# Twin trees

Twins are trees that differ in comments and in where they stand. Comments have no role and no parts,
so the children that are told by their roles and kinds are twins too. Where the text of a tree is
read as a whole, it is the same in both, and where only the first of several trees counts, it is no
comment in either.
-/
open List

namespace Xref.Syntax

open Java Text

/-- Where the trees of one source stand in another one. -/
structure Passage where
  source : List Char
  source' : List Char
  /-- Where a tree begins that begins at this byte in the first source. -/
  start : Nat → Nat
  stop : Nat → Nat
  start_inj : ∀ {a b : Nat}, start a = start b → a = b
  stop_le_start : ∀ a b, stop a ≤ start b ↔ a ≤ b
  /-- Whether nothing moves. -/
  isFixed : Prop
  fixed : isFixed → ∀ a, start a = a ∧ stop a = a

/-- The trees of a source stand where they stand. -/
def Passage.refl (source : List Char) : Passage where
  source := source
  source' := source
  start := id
  stop := id
  start_inj := id
  stop_le_start := fun _ _ => .rfl
  isFixed := True
  fixed := fun _ _ => ⟨rfl, rfl⟩

structure Stand where
  isArguments : Bool
  isPair : Bool
  isValue : Bool

def Stand.outside : Stand := ⟨false, false, false⟩

def Stand.enter (stand : Stand) (t c : Tree) : Stand where
  isArguments :=
    List.contains [.annotationUse, .annotationMarker] t.kind && c.role == some .arguments
  isPair := stand.isArguments && c.kind == .elementValuePair
  isValue := stand.isArguments && c.kind != .elementValuePair || stand.isPair ||
    stand.isValue && List.contains [.elementValueArrayInitializer, .arrayInitializer] t.kind

/-- Names, numbers and brackets, whose text is read wherever they stand. -/
def Kind.isSpelled : Kind → Bool
  | identifier | scopedIdentifier | dimensions | decimalIntegerLiteral | hexIntegerLiteral
  | octalIntegerLiteral | binaryIntegerLiteral | decimalFloatingPointLiteral
  | hexFloatingPointLiteral => true
  | _ => false

namespace Tree

def clean (t : Tree) : List Tree := t.children.filter fun c => !c.kind.isComment

def leafText? : Tree → Option String
  | leaf _ _ _ text => some text
  | node .. => none

/-- Comments have no role and no parts. -/
structure IsAside (t : Tree) : Prop where
  role : t.role = none
  leaf : t.leafText?.isSome

/-- Types whose text is put together from the texts of their parts. -/
def isComposed (t : Tree) : Bool :=
  match t.kind with
  | .genericType =>
    t.children.any fun c => [.typeIdentifier, .scopedTypeIdentifier].contains c.kind
  | .scopedTypeIdentifier | .arrayType | .annotatedType => true
  | _ => false

def isTyped (t c : Tree) : Bool :=
  c.kind.isType || c.role == some .type || c.role == some .element ||
    t.kind == .instanceofExpression && c.role == some .right || t.kind == .classLiteral

/-- Whether a value of an annotation element is read by its parts. -/
def isParted (c : Tree) : Bool :=
  List.contains [.elementValueArrayInitializer, .arrayInitializer, .annotationUse,
    .annotationMarker] c.kind

/-- Whether the text of `c` is read as a whole where it stands in `t`. -/
def isRead (stand : Stand) (t c : Tree) : Bool :=
  c.kind.isSpelled ||
    [.name, .key, .field, .operator, .dimensions].any (fun r => c.role == some r) ||
    isTyped t c && !c.isComposed || (stand.enter t c).isValue && !c.isParted

/-- The child that decides in place of those after it: the operand of parentheses or of an
increment, and the outer instance of a new object. -/
def foremost? (t : Tree) : Option Tree :=
  match t.kind with
  | .parenthesizedExpression | .updateExpression => t.named.head?
  | .objectCreationExpression =>
    (t.child? .type).bind fun type => t.named.find? fun c =>
      c.stop ≤ type.start &&
        !List.contains [.typeArguments, .annotationUse, .annotationMarker] c.kind
  | _ => none

end Tree

/-- `t'` is the twin of `t`. -/
inductive Tree.Twin (π : Passage) : Stand → Tree → Tree → Prop where
  | mk {stand : Stand} {t t' : Tree} (hlabel : t'.label = t.label)
      (hfixed : π.isFixed → t'.start = t.start ∧ t'.stop = t.stop)
      (hleaf : t'.leafText? = t.leafText?)
      (haside : ∀ c ∈ t.children, c.kind.isComment → c.IsAside)
      (haside' : ∀ c ∈ t'.children, c.kind.isComment → c.IsAside)
      (hforemost : (t'.foremost?.any fun c => !c.kind.isComment) =
        t.foremost?.any fun c => !c.kind.isComment)
      (hliteral : stand.isValue → t.kind = .classLiteral →
        t'.named.head?.map (erased π.source') = t.named.head?.map (erased π.source))
      (hlength : t.clean.length = t'.clean.length)
      (hparts : ∀ pair ∈ t.clean.zip t'.clean, Twin π (stand.enter t pair.1) pair.1 pair.2)
      (hplaces : ∀ pair ∈ t.clean.zip t'.clean,
        pair.2.start = π.start pair.1.start ∧ pair.2.stop = π.stop pair.1.stop)
      (htexts : ∀ pair ∈ t.clean.zip t'.clean, isRead stand t pair.1 →
        pair.2.text π.source' = pair.1.text π.source) :
      Twin π stand t t'

variable {α β : Type} {π : Passage} {stand : Stand} {t t' : Tree} {p : Label → Bool}
  {m : Type → Type} {q : α → Bool} {l : List α}

namespace Tree

/-- `c'` is the twin of the child `c` of `t`. -/
structure TwinPart (π : Passage) (stand : Stand) (t c c' : Tree) : Prop where
  twin : Twin π (stand.enter t c) c c'
  start : c'.start = π.start c.start
  stop : c'.stop = π.stop c.stop
  text : isRead stand t c → c'.text π.source' = c.text π.source

section

variable {R : α → β → Prop} {l : List α} {l' : List β}
variable {γ : Type} {o : Option α} {o' : Option β}

section

variable (h : List.Forall₂ R l l') {q : β → Bool} {f : α → Option γ}
include h

lemma filter_rel {p : α → Bool} (hpq : ∀ a b, R a b → q b = p a) :
    List.Forall₂ (fun a b => R a b ∧ p a) (l.filter p) (l'.filter q) := by
  induction h with
  | nil => exact .nil
  | @cons a b _ _ hab _ ih =>
    rw [filter_cons, filter_cons, hpq a b hab]
    cases ha : p a with
    | true => exact .cons ⟨hab, ha⟩ ih
    | false => exact ih

lemma head?_rel : Option.Rel R l.head? l'.head? := by
  cases h with
  | nil => exact .none
  | cons hab _ => exact .some hab

lemma find?_rel {p : α → Bool} (hpq : ∀ a b, R a b → q b = p a) :
    Option.Rel (fun a b => R a b ∧ p a) (l.find? p) (l'.find? q) := by
  rw [← head?_filter, ← head?_filter]
  exact head?_rel (filter_rel h hpq)

lemma map_eq_of_rel {f : α → γ} {g : β → γ}
    (hfg : ∀ a b, R a b → g b = f a) : l'.map g = l.map f := by
  induction h with
  | nil => rfl
  | cons hab _ ih => rw [map_cons, map_cons, hfg _ _ hab, ih]

lemma filterMap_rel {δ : Type} {S : γ → δ → Prop} {g : β → Option δ}
    (hfg : ∀ a b, R a b → Option.Rel S (f a) (g b)) :
    List.Forall₂ S (l.filterMap f) (l'.filterMap g) := by
  induction h with
  | nil => exact .nil
  | @cons a b _ _ hab _ ih =>
    have hfound := hfg a b hab
    rw [filterMap_cons, filterMap_cons]
    generalize f a = c at hfound
    generalize g b = d at hfound
    cases hfound with
    | none => exact ih
    | some hcd => exact .cons hcd ih

lemma filterMap_eq_of_rel {g : β → Option γ} (hfg : ∀ a b, R a b → g b = f a) :
    l'.filterMap g = l.filterMap f := by
  induction h with
  | nil => rfl
  | cons hab _ ih => rw [filterMap_cons, filterMap_cons, hfg _ _ hab, ih]

lemma any_eq_of_rel {p : α → Bool} (hpq : ∀ a b, R a b → q b = p a) : l'.any q = l.any p := by
  simpa [any_map] using congrArg (any · id) (map_eq_of_rel h hpq)

lemma foldl_eq_of_rel {f : γ → α → γ} {g : γ → β → γ}
    (hfg : ∀ x a b, R a b → g x b = f x a) (x : γ) : l'.foldl g x = l.foldl f x := by
  induction h generalizing x with
  | nil => rfl
  | cons hab _ ih => rw [foldl_cons, foldl_cons, hfg _ _ _ hab, ih]

end

lemma optionRel_cases (h : Option.Rel R o o') :
    o = none ∧ o' = none ∨ ∃ a b, o = some a ∧ o' = some b ∧ R a b := by
  cases h with
  | none => exact .inl ⟨rfl, rfl⟩
  | some hab => exact .inr ⟨_, _, rfl, rfl, hab⟩

@[elab_as_elim]
lemma rel_elim {motive : Option α → Option β → Prop} (h : Option.Rel R o o')
    (none : motive none none) (some : ∀ a b, R a b → motive (some a) (some b)) : motive o o' := by
  cases h with
  | none => exact none
  | some hab => exact some _ _ hab

lemma optionRel_imp {S : α → β → Prop} (h : Option.Rel R o o') (himp : ∀ a b, R a b → S a b) :
    Option.Rel S o o' := by
  cases h with
  | none => exact .none
  | some hab => exact .some (himp _ _ hab)

lemma map_eq_of_optionRel {f : α → γ} {g : β → γ} (h : Option.Rel R o o')
    (hfg : ∀ a b, R a b → g b = f a) : o'.map g = o.map f := by
  cases h with
  | none => rfl
  | some hab => exact congrArg some (hfg _ _ hab)

lemma find?_filter_of_find? {p q : α → Bool} {a : α} (h : l.find? p = some a) (hq : q a) :
    (l.filter q).find? p = some a := by
  induction l with
  | nil => cases h
  | cons b l ih =>
    rw [find?_cons] at h
    cases hb : p b with
    | true =>
      rw [hb] at h
      obtain rfl : b = a := Option.some.inj h
      rw [filter_cons_of_pos hq, find?_cons_of_pos hb]
    | false =>
      rw [hb] at h
      cases hqb : q b with
      | true => rw [filter_cons_of_pos hqb, find?_cons_of_neg (by simp [hb]), ih h]
      | false => rw [filter_cons_of_neg (by simp [hqb]), ih h]

end

section

namespace Twin

section

variable (h : Twin π stand t t')
include h

lemma label : t'.label = t.label := by
  cases h with
  | mk hlabel => exact hlabel

lemma kind : t'.kind = t.kind := congrArg Prod.snd h.label

lemma role : t'.role = t.role := congrArg Prod.fst h.label

lemma range (hfixed : π.isFixed) : t'.start = t.start ∧ t'.stop = t.stop := by
  cases h with
  | mk _ hrange => exact hrange hfixed

lemma leafText : t'.leafText? = t.leafText? := by
  cases h with
  | mk _ _ hleaf => exact hleaf

lemma aside : (∀ c ∈ t.children, c.kind.isComment → c.IsAside) ∧
    ∀ c ∈ t'.children, c.kind.isComment → c.IsAside := by
  cases h with
  | mk _ _ _ haside haside' => exact ⟨haside, haside'⟩

lemma foremost : (t'.foremost?.any fun c => !c.kind.isComment) =
    t.foremost?.any fun c => !c.kind.isComment := by
  cases h with
  | mk _ _ _ _ _ hforemost => exact hforemost

lemma literal (hvalue : stand.isValue) (hkind : t.kind = .classLiteral) :
    t'.named.head?.map (erased π.source') = t.named.head?.map (erased π.source) := by
  cases h with
  | mk _ _ _ _ _ _ hliteral => exact hliteral hvalue hkind

lemma parts : List.Forall₂ (TwinPart π stand t) t.clean t'.clean := by
  cases h with
  | mk _ _ _ _ _ _ _ hlength hparts hplaces htexts =>
    exact forall₂_iff_zip.mpr ⟨hlength, fun hpair =>
      ⟨hparts _ hpair, (hplaces _ hpair).1, (hplaces _ hpair).2, htexts _ hpair⟩⟩

lemma isNamed : t'.isNamed = t.isNamed := by rw [Tree.isNamed, h.kind, Tree.isNamed]

lemma isLiteral (word : String) : t'.isLiteral word = t.isLiteral word := by
  have hkind := h.kind
  have htext := h.leafText
  cases t with
  | leaf role kind range text =>
    cases t' with
    | node => cases htext
    | leaf role' kind' range' text' =>
      obtain rfl : kind' = kind := hkind
      obtain rfl : text' = text := Option.some.inj htext
      cases kind' <;> rfl
  | node =>
    cases t' with
    | leaf => cases htext
    | node => rfl

end

end Twin

lemma filter_clean {tree : α → Tree} {l : List α}
    (haside : ∀ a ∈ l, (tree a).kind.isComment → (tree a).IsAside)
    (hp : ∀ k : Kind, k.isComment → p (none, k) = false) :
    l.filter (fun a => p (tree a).label) =
      (l.filter fun a => !(tree a).kind.isComment).filter fun a => p (tree a).label := by
  rw [filter_filter]
  refine filter_congr fun a ha => ?_
  cases hcomment : (tree a).kind.isComment with
  | false => simp
  | true => simp [label, (haside a ha hcomment).role, hp _ hcomment]

namespace Twin

section

variable {S : Tree → Tree → Prop} (h : Twin π stand t t')
  (hparts : List.Forall₂ S t.clean t'.clean) (hlabel : ∀ c c', S c c' → c'.label = c.label)
include h hparts hlabel

section

variable (hp : ∀ k : Kind, k.isComment → p (none, k) = false)
include hp

lemma filter : List.Forall₂ (fun c c' => S c c' ∧ p c.label) (t.children.filter fun c => p c.label)
    (t'.children.filter fun c => p c.label) := by
  rw [filter_clean h.aside.1 hp, filter_clean h.aside.2 hp]
  exact filter_rel hparts fun c c' hc => by rw [hlabel c c' hc]

lemma find : Option.Rel (fun c c' => S c c' ∧ p c.label) (t.children.find? fun c => p c.label)
    (t'.children.find? fun c => p c.label) := by
  rw [← head?_filter, ← head?_filter]
  exact head?_rel (h.filter hparts hlabel hp)

lemma findLast :
    Option.Rel (fun c c' => S c c' ∧ p c.label) (t.children.reverse.find? fun c => p c.label)
      (t'.children.reverse.find? fun c => p c.label) := by
  rw [← head?_filter, ← head?_filter, filter_reverse, filter_reverse]
  exact head?_rel (rel_reverse (h.filter hparts hlabel hp))

end

end

section

variable (h : Twin π stand t t')
include h

lemma child (r : Role) : Option.Rel (fun c c' => TwinPart π stand t c c' ∧ c.role = some r)
    (t.child? r) (t'.child? r) := by
  have hfind := h.find h.parts (fun _ _ hc => hc.twin.label) (p := fun l => l.1 == some r)
    fun _ _ => rfl
  exact optionRel_imp hfind fun c c' ⟨hc, hrole⟩ => ⟨hc, eq_of_beq hrole⟩

lemma childOfKinds {p : Kind → Bool}
    (hp : ∀ k : Kind, k.isComment →
      p k = false := by intro k hk; cases k <;> first | rfl | cases hk) :
    Option.Rel (fun c c' => TwinPart π stand t c c' ∧ p c.kind)
      (t.children.find? fun c => p c.kind) (t'.children.find? fun c => p c.kind) :=
  h.find h.parts (fun _ _ hc => hc.twin.label) (p := fun l => p l.2) hp

lemma childOf {k : Kind} (hk : k.isComment = false) :
    Option.Rel (fun c c' => TwinPart π stand t c c' ∧ c.kind = k)
      (t.childOf? k) (t'.childOf? k) := by
  have hfind := h.childOfKinds (p := fun k' => k' == k) fun k' hk' =>
    beq_eq_false_iff_ne.mpr fun heq => by rw [heq, hk] at hk'; cases hk'
  exact optionRel_imp hfind fun c c' ⟨hc, hkind⟩ => ⟨hc, eq_of_beq hkind⟩

lemma childrenOfKinds {p : Kind → Bool}
    (hp : ∀ k : Kind, k.isComment →
      p k = false := by intro k hk; cases k <;> first | rfl | cases hk) :
    List.Forall₂ (fun c c' => TwinPart π stand t c c' ∧ p c.kind)
      (t.children.filter fun c => p c.kind) (t'.children.filter fun c => p c.kind) :=
  h.filter h.parts (fun _ _ hc => hc.twin.label) (p := fun l => p l.2) hp

end

lemma induction {motive : Stand → Tree → Tree → Prop} (step : ∀ {stand t t'}, Twin π stand t t' →
      List.Forall₂ (fun c c' => TwinPart π stand t c c' ∧
        motive (stand.enter t c) c c') t.clean t'.clean → motive stand t t')
    (h : Twin π stand t t') : motive stand t t' := by
  induction h with
  | mk hlabel hfixed hleaf haside haside' hforemost hliteral hlength hparts hplaces htexts ih =>
    have h := Twin.mk hlabel hfixed hleaf haside haside' hforemost hliteral hlength hparts hplaces
      htexts
    exact step h (forall₂_iff_zip.mpr ⟨hlength, fun hpair =>
      ⟨(forall₂_iff_zip.mp h.parts).2 hpair, ih _ hpair⟩⟩)

end Twin

variable {c c' : Tree}

lemma isRead_of_kind (h : c.kind.isSpelled) : isRead stand t c := by
  simp only [isRead, h, Bool.true_or]

lemma isRead_of_value (h : (stand.enter t c).isValue) (hparted : c.isParted = false) :
    isRead stand t c := by
  simp only [isRead, h, hparted, Bool.not_false, Bool.and_self, Bool.or_true]

lemma text_of_role {r : Role} (h : TwinPart π stand t c c' ∧ c.role = some r)
    (hr : r ∈ [Role.name, .key, .field, .operator, .dimensions] := by decide) :
    c'.text π.source' = c.text π.source := by
  have hany : [Role.name, .key, .field, .operator, .dimensions].any
      (fun r => c.role == some r) = true :=
    any_eq_true.mpr ⟨r, hr, by rw [h.2]; exact beq_self_eq_true _⟩
  exact h.1.text (by simp only [isRead, hany, Bool.or_true, Bool.true_or])

lemma isRead_of_typed (htyped : isTyped t c) (hwhole : c.isComposed = false) :
    isRead stand t c := by
  simp only [isRead, htyped, hwhole, Bool.not_false, Bool.and_self, Bool.or_true, Bool.true_or]

lemma isTyped_of_kind (h : c.kind.isType) : isTyped t c := by simp only [isTyped, h, Bool.true_or]

lemma isTyped_of_type (h : c.role = some .type) : isTyped t c := by simp [isTyped, h]

lemma isTyped_of_element (h : c.role = some .element) : isTyped t c := by simp [isTyped, h]

namespace Twin

lemma textIn (h : Twin π stand t t') {r : Role}
    (hr : r ∈ [Role.name, .key, .field, .operator, .dimensions]) :
    (t'.child? r).map (text π.source') = (t.child? r).map (text π.source) :=
  map_eq_of_optionRel (h.child r) fun _ _ hc => text_of_role hc hr

lemma nameText (h : Twin π stand t t') : t'.nameText? π.source' = t.nameText? π.source :=
  h.textIn (by decide)

lemma dottedName {name name' : Tree} (h : name'.text π.source' = name.text π.source) :
    name'.dottedName π.source' = name.dottedName π.source := congrArg squeeze h

lemma countDims (h : Twin π stand t t') : Tree.countDims π.source' (t'.child? .dimensions) =
    Tree.countDims π.source (t.child? .dimensions) := by
  have htext := h.textIn (r := .dimensions) (by decide)
  unfold Tree.countDims
  simpa only [Option.map_map, Function.comp_def] using
    congrArg (fun o => (o.map fun s : String => s.toList.countP (· == '[')).getD 0) htext

end Twin

lemma erased_eq (source : List Char) (t : Tree) : t.erased source =
    erasedFrom source t (t.children.map fun c => (c, c.erased source)) :=
  fold_eq _ t

def SameErased (π : Passage) (c c' : Tree) : Prop :=
  (c.isComposed = false → c'.text π.source' = c.text π.source) →
    c'.erased π.source' = c.erased π.source

/-- The erased texts of twins are the same, if their texts are where these are not put together from
the texts of their parts. -/
lemma Twin.sameErased (h : Twin π stand t t') : SameErased π t t' := by
  refine Twin.induction (motive := fun _ t t' => SameErased π t t') ?_ h
  intro stand t t' h hparts htext
  let S (c c' : Tree) : Prop := TwinPart π stand t c c' ∧ SameErased π c c'
  have hlabel (c c' : Tree) (hc : S c c') : c'.label = c.label := hc.1.twin.label
  have hpart {c c' : Tree} (hc : S c c') (htyped : isTyped t c) :
      c'.erased π.source' = c.erased π.source :=
    hc.2 fun hwhole => hc.1.text (isRead_of_typed htyped hwhole)
  rw [erased_eq, erased_eq]
  unfold erasedFrom
  rw [h.kind]
  split
  case h_1 hkind =>
    have hfind := h.find hparts hlabel
      (p := fun l => [.typeIdentifier, .scopedTypeIdentifier].contains l.2)
      fun _ hk => Kind.not_of_comment hk
    simp only [find?_map, Function.comp_def, Tree.label] at hfind ⊢
    generalize hfound : t.children.find? _ = found at hfind ⊢
    generalize t'.children.find? _ = found' at hfind ⊢
    cases hfind with
    | none =>
      refine htext ?_
      simpa [isComposed, hkind] using hfound
    | some hc =>
      refine hpart hc.1 (isTyped_of_kind ?_)
      have hmem := hc.2
      revert hmem
      cases Tree.kind _ <;> decide
  case h_2 =>
    have hfilter := h.filter hparts hlabel
      (p := fun l => [.typeIdentifier, .scopedTypeIdentifier, .genericType].contains l.2)
      fun _ hk => Kind.not_of_comment hk
    simp only [filter_map, Function.comp_def, map_map, Tree.label] at hfilter ⊢
    refine congrArg (joinWith ".") (map_eq_of_rel hfilter fun c c' hc => hpart hc.1 ?_)
    refine isTyped_of_kind ?_
    have hmem := hc.2
    revert hmem
    cases c.kind <;> decide
  case h_3 =>
    have hfind := h.find hparts hlabel (p := fun l => l.1 == some .element) fun _ _ => rfl
    have hbase := map_eq_of_optionRel hfind fun c c' hc =>
      hpart hc.1 (isTyped_of_element (eq_of_beq hc.2))
    rw [h.countDims]
    simp only [Valued.child?, find?_map, Function.comp_def, Option.map_map, Tree.label]
      at hbase ⊢
    rw [hbase]
  case h_4 =>
    have hfind := h.findLast hparts hlabel (p := fun l => l.2.isType) fun _ hk =>
      Kind.not_of_comment hk
    have hlast := map_eq_of_optionRel hfind fun c c' hc => hpart hc.1 (isTyped_of_kind hc.2)
    simp only [← map_reverse, find?_map, Function.comp_def, Option.map_map, Tree.label]
      at hlast ⊢
    rw [hlast]
  case h_5 hgeneric hscoped harray hannotated =>
    refine congrArg trim (htext ?_)
    unfold isComposed
    split <;> first | contradiction | rfl

structure TwinType (π : Passage) (c c' : Tree) : Prop where
  twin : ∃ stand, Twin π stand c c'
  erased : c'.erased π.source' = c.erased π.source
  text : c.kind = .typeIdentifier → c'.text π.source' = c.text π.source

lemma TwinPart.type (h : TwinPart π stand t c c') (htyped : isTyped t c) : TwinType π c c' where
  twin := ⟨_, h.twin⟩
  erased := h.twin.sameErased fun hwhole => h.text (isRead_of_typed htyped hwhole)
  text hkind := h.text (isRead_of_typed htyped (by simp only [isComposed, hkind]))

lemma nameOfType_of_generic (h : t.kind = .genericType) : t.nameOfType = (t.children.find? fun c =>
    [.typeIdentifier, .scopedTypeIdentifier].contains c.kind).getD t := by
  rw [nameOfType, fold_eq]
  simp only [h, find?_map, Option.map_map, Function.comp_def, Option.map_id_fun', id_eq]

lemma nameOfType_of_annotated (h : t.kind = .annotatedType) : t.nameOfType =
    ((t.children.reverse.find? fun c => c.kind.isType).map nameOfType).getD t := by
  rw [nameOfType, fold_eq]
  simp only [h, ← map_reverse, find?_map, Option.map_map, Function.comp_def]

lemma nameOfType_of_other (hgeneric : t.kind ≠ .genericType)
    (hannotated : t.kind ≠ .annotatedType) : t.nameOfType = t := by
  rw [nameOfType, fold_eq]
  split
  · exact absurd ‹_› hgeneric
  · exact absurd ‹_› hannotated
  · rfl

namespace Twin

section

variable (h : Twin π stand t t')
include h

lemma typeIn : Option.Rel (TwinType π) (t.child? .type) (t'.child? .type) :=
  optionRel_imp (h.child .type) fun _ _ hc => hc.1.type (isTyped_of_type hc.2)

lemma typeAmong : Option.Rel (TwinType π) (t.children.find? fun c => c.kind.isType)
    (t'.children.find? fun c => c.kind.isType) :=
  optionRel_imp h.childOfKinds fun _ _ hc => hc.1.type (isTyped_of_kind hc.2)

lemma typesAmong : List.Forall₂ (TwinType π) (t.children.filter fun c => c.kind.isType)
    (t'.children.filter fun c => c.kind.isType) :=
  h.childrenOfKinds.imp fun _ _ hc => hc.1.type (isTyped_of_kind hc.2)

lemma declaredType : Option.Rel (TwinType π) t.declaredType? t'.declaredType? := by
  unfold declaredType?
  exact rel_elim h.typeIn h.typeAmong fun _ _ hc => .some hc

lemma nameOfType : ∃ stand, Twin π stand t.nameOfType t'.nameOfType := by
  refine Twin.induction
    (motive := fun _ t t' => ∃ stand, Twin π stand t.nameOfType t'.nameOfType) ?_ h
  intro stand t t' h hparts
  let S (c c' : Tree) : Prop := TwinPart π stand t c c' ∧
    ∃ stand, Twin π stand c.nameOfType c'.nameOfType
  have hlabel (c c' : Tree) (hc : S c c') : c'.label = c.label := hc.1.twin.label
  by_cases hgeneric : t.kind = .genericType
  · rw [nameOfType_of_generic hgeneric, nameOfType_of_generic (h.kind.trans hgeneric)]
    have hfind := h.find hparts hlabel
      (p := fun l => [.typeIdentifier, .scopedTypeIdentifier].contains l.2)
      fun _ hk => Kind.not_of_comment hk
    simp only [Tree.label] at hfind
    exact rel_elim hfind ⟨stand, h⟩ fun _ _ hc => ⟨_, hc.1.1.twin⟩
  by_cases hannotated : t.kind = .annotatedType
  · rw [nameOfType_of_annotated hannotated, nameOfType_of_annotated (h.kind.trans hannotated)]
    have hfind := h.findLast hparts hlabel (p := fun l => l.2.isType) fun _ hk =>
      Kind.not_of_comment hk
    simp only [Tree.label] at hfind
    exact rel_elim hfind ⟨stand, h⟩ fun _ _ hc => hc.1.2
  · rw [nameOfType_of_other hgeneric hannotated,
      nameOfType_of_other (h.kind ▸ hgeneric) (h.kind ▸ hannotated)]
    exact ⟨stand, h⟩

end

end Twin

lemma TwinType.nameOfType (h : TwinType π c c') :
    ∃ stand, Twin π stand c.nameOfType c'.nameOfType := by
  obtain ⟨stand, h⟩ := h.twin
  exact h.nameOfType

lemma isLiteral_of_comment (word : String) (c : Tree) (h : c.kind.isComment) :
    c.isLiteral word = false := by
  cases c with
  | node => rfl
  | leaf role kind range text =>
    change kind.isComment at h
    revert h
    cases kind <;> simp [Kind.isComment, isLiteral]

lemma any_clean {p : Tree → Bool} (hp : ∀ c : Tree, c.kind.isComment → p c = false) :
    t.children.any p = t.clean.any p := by
  rw [clean, any_filter]
  refine congrArg t.children.any (funext fun c => ?_)
  cases hcomment : c.kind.isComment with
  | false => simp
  | true => simp [hp c hcomment]

lemma typesOf_rel {o o' : Option Tree}
    (h : Option.Rel (fun c c' => ∃ stand, Twin π stand c c') o o') :
    List.Forall₂ (TwinType π) (typesOf o) (typesOf o') := by
  cases h with
  | none => exact .nil
  | @some c c' h =>
    obtain ⟨stand, h⟩ := h
    simp only [typesOf, h.kind]
    split
    · exact h.typesAmong
    · exact rel_elim (h.childOf rfl) h.typesAmong fun _ _ hl =>
        hl.1.twin.typesAmong

namespace Twin

section

variable (h : Twin π stand t t')
include h

lemma clause (r : Role) :
    List.Forall₂ (TwinType π) (typesOf (t.child? r)) (typesOf (t'.child? r)) :=
  typesOf_rel (optionRel_imp (h.child r) fun _ _ hc => ⟨_, hc.1.twin⟩)

lemma clauseOf {k : Kind} (hk : k.isComment = false) :
    List.Forall₂ (TwinType π) (typesOf (t.childOf? k)) (typesOf (t'.childOf? k)) :=
  typesOf_rel (optionRel_imp (h.childOf hk) fun _ _ hc => ⟨_, hc.1.twin⟩)

lemma any_isLiteral (word : String) :
    t'.children.any (Tree.isLiteral word) = t.children.any (Tree.isLiteral word) := by
  rw [any_clean (isLiteral_of_comment word), any_clean (isLiteral_of_comment word)]
  exact any_eq_of_rel h.parts fun c c' hc => hc.twin.isLiteral word

lemma hasModifier (word : String) : t'.hasModifier word = t.hasModifier word := by
  unfold Tree.hasModifier
  exact rel_elim (h.childOf rfl) rfl fun _ _ hc => hc.1.twin.any_isLiteral word

end

end Twin

lemma filterMap_clean {f : Tree → Option α} (hf : ∀ c : Tree, c.kind.isComment → f c = none) :
    t.children.filterMap f = t.clean.filterMap f := by
  rw [clean, filterMap_filter]
  refine congrArg (t.children.filterMap ·) (funext fun c => ?_)
  cases hcomment : c.kind.isComment with
  | false => simp
  | true => simp [hf c hcomment]

def typeBound? (source : List Char) (p : Tree) : Option String := do
  let bound ← p.childOf? .typeBound
  let first ← bound.children.find? fun c => c.kind.isType
  return first.erased source

def typeVariable? (source : List Char) (p : Tree) : Option TypeVariable :=
  if p.kind != .typeParameter then none
  else
    (p.children.find? fun c => [.typeIdentifier, .identifier].contains c.kind).map fun name =>
      { name := name.text source, bound := p.typeBound? source }

lemma isRead_of_name (h : [Kind.typeIdentifier, .identifier].contains c.kind) :
    isRead stand t c := by
  have hkind : c.kind = .typeIdentifier ∨ c.kind = .identifier := by simpa using h
  rcases hkind with hkind | hkind
  · exact isRead_of_typed (isTyped_of_kind (hkind ▸ rfl)) (by simp only [isComposed, hkind])
  · exact isRead_of_kind (hkind ▸ rfl)

lemma Twin.typeBound (h : Twin π stand t t') : t'.typeBound? π.source' = t.typeBound? π.source := by
  unfold typeBound?
  refine rel_elim (h.childOf rfl) rfl fun bound bound' hb => ?_
  simp only [Option.bind_eq_bind, Option.bind_some]
  exact rel_elim hb.1.twin.typeAmong rfl fun _ _ hc => congrArg some hc.erased

lemma Twin.typeVariable (h : Twin π stand t t') :
    t'.typeVariable? π.source' = t.typeVariable? π.source := by
  unfold typeVariable?
  rw [h.kind]
  split
  · rfl
  · have hname := h.childOfKinds (p := fun k => [.typeIdentifier, .identifier].contains k)
    refine map_eq_of_optionRel hname fun c c' hc => ?_
    rw [hc.1.text (isRead_of_name hc.2), h.typeBound]

lemma Twin.typeParameters (h : Twin π stand t t') :
    t'.typeParameters π.source' = t.typeParameters π.source := by
  have hnone (source : List Char) (c : Tree) (hc : c.kind.isComment) :
      c.typeVariable? source = none := by
    refine if_pos (bne_iff_ne.mpr fun hkind => ?_)
    rw [hkind] at hc
    cases hc
  have hlist {list list' : Option Tree}
      (hrel : Option.Rel (fun c c' => ∃ stand, Twin π stand c c') list list') :
      ((list'.map children).getD []).filterMap (typeVariable? π.source') =
        ((list.map children).getD []).filterMap (typeVariable? π.source) := by
    cases hrel with
    | none => rfl
    | @some c c' hc =>
      obtain ⟨_, hc⟩ := hc
      change c'.children.filterMap _ = c.children.filterMap _
      rw [filterMap_clean (hnone _), filterMap_clean (hnone _)]
      exact filterMap_eq_of_rel hc.parts fun p p' hp => hp.twin.typeVariable
  refine hlist ?_
  exact rel_elim (h.child .typeParameters)
    (optionRel_imp (h.childOf rfl) fun _ _ hc => ⟨_, hc.1.twin⟩) fun _ _ hc => .some ⟨_, hc.1.twin⟩

structure TwinParameter (π : Passage) (p p' : Parameter) : Prop where
  twin : ∃ stand, Twin π stand p.tree p'.tree
  type : p'.type = p.type
  name : p'.name = p.name
  isVarargs : p'.isVarargs = p.isVarargs

lemma Twin.parameter (h : Twin π stand t t') :
    Option.Rel (TwinParameter π) (Parameter.ofTree? π.source t)
      (Parameter.ofTree? π.source' t') := by
  unfold Parameter.ofTree?
  rw [h.kind]
  split
  · refine rel_elim h.declaredType .none fun _ _ htype => .some ⟨⟨_, h⟩, ?_, ?_, rfl⟩
    · simp only [htype.erased, h.countDims]
    · simp only [h.nameText]
  · refine rel_elim h.declaredType .none fun _ _ htype => ?_
    refine rel_elim (h.childOf rfl)
      (.some ⟨⟨_, h⟩, by simp only [htype.erased]; rfl, rfl, rfl⟩) fun _ _ hd =>
        .some ⟨⟨_, h⟩, ?_, ?_, rfl⟩
    · simp only [htype.erased, Option.bind_some, hd.1.twin.countDims]
    · simp only [Option.bind_some, hd.1.twin.nameText]
  · exact .none

lemma parameter_of_comment (source : List Char) (c : Tree) (h : c.kind.isComment) :
    Parameter.ofTree? source c = none := by
  unfold Parameter.ofTree?
  split
  case h_1 hkind | h_2 hkind => rw [hkind] at h; cases h
  case h_3 => rfl

lemma Twin.parameters (h : Twin π stand t t') :
    List.Forall₂ (TwinParameter π) (t.parameters π.source) (t'.parameters π.source') := by
  unfold Tree.parameters
  refine rel_elim (h.child .parameters) .nil fun c c' hc => ?_
  change List.Forall₂ _ (c.children.filterMap _) (c'.children.filterMap _)
  rw [filterMap_clean (parameter_of_comment _), filterMap_clean (parameter_of_comment _)]
  exact filterMap_rel hc.1.twin.parts fun p p' hp => hp.twin.parameter

end

end Tree

namespace Valued

open Tree (Twin TwinPart IsAside)

def clean (cs : Valued α) : Valued α := cs.filter fun c => !c.1.kind.isComment

/-- Twins whose children have values that `R` relates. Comments can have any values. -/
structure Twins (π : Passage) (stand : Stand) (R : Tree × α → Tree × β → Prop) (t t' : Tree)
    (cs : Valued α) (cs' : Valued β) : Prop where
  twin : Twin π stand t t'
  trees : cs.map Prod.fst = t.children
  trees' : cs'.map Prod.fst = t'.children
  parts : List.Forall₂
    (fun c c' => TwinPart π stand t c.1 c'.1 ∧ R c c') cs.clean cs'.clean

lemma filter_clean {cs : Valued α} (htrees : cs.map Prod.fst = t.children)
    (haside : ∀ c ∈ t.children, c.kind.isComment → c.IsAside)
    (hp : ∀ k : Kind, k.isComment → p (none, k) = false) :
    cs.filter (fun c => p c.1.label) = cs.clean.filter fun c => p c.1.label :=
  Tree.filter_clean (fun c hc => haside c.1 (htrees ▸ mem_map_of_mem hc)) hp

namespace Twins

variable {R : Tree × α → Tree × β → Prop} {cs : Valued α} {cs' : Valued β}

section

variable (h : Twins π stand R t t' cs cs') (hp : ∀ k : Kind, k.isComment → p (none, k) = false)
include h hp

lemma filter : List.Forall₂ (fun c c' => (TwinPart π stand t c.1 c'.1 ∧ R c c') ∧
    p c.1.label) (cs.filter fun c => p c.1.label) (cs'.filter fun c => p c.1.label) := by
  rw [filter_clean h.trees h.twin.aside.1 hp, filter_clean h.trees' h.twin.aside.2 hp]
  exact Tree.filter_rel h.parts fun c c' hc => by rw [hc.1.twin.label]

lemma find : Option.Rel (fun c c' => (TwinPart π stand t c.1 c'.1 ∧ R c c') ∧
    p c.1.label) (cs.find? fun c => p c.1.label) (cs'.find? fun c => p c.1.label) := by
  rw [← head?_filter, ← head?_filter]
  exact Tree.head?_rel (h.filter hp)

end

section

variable (h : Twins π stand R t t' cs cs')
include h

lemma child (r : Role) : Option.Rel (fun c c' => (TwinPart π stand t c.1 c'.1 ∧ R c c') ∧
    c.1.role = some r) (cs.child? r) (cs'.child? r) :=
  Tree.optionRel_imp (h.find (p := fun l => l.1 == some r) fun _ _ => rfl)
    fun _ _ ⟨hc, hrole⟩ => ⟨hc, eq_of_beq hrole⟩

lemma childOf {k : Kind} (hk : k.isComment = false) :
    Option.Rel (fun c c' => (TwinPart π stand t c.1 c'.1 ∧ R c c') ∧
      c.1.kind = k) (cs.childOf? k) (cs'.childOf? k) := by
  have hfind := h.find (p := fun l => l.2 == k) fun k' hk' =>
    beq_eq_false_iff_ne.mpr fun heq => by rw [show k' = k from heq, hk] at hk'; cases hk'
  exact Tree.optionRel_imp hfind fun _ _ ⟨hc, hkind⟩ => ⟨hc, eq_of_beq hkind⟩

lemma childrenIn (r : Role) : List.Forall₂ (fun c c' => (TwinPart π stand t c.1 c'.1 ∧ R c c') ∧
    c.1.role = some r) (cs.childrenIn r) (cs'.childrenIn r) :=
  (h.filter (p := fun l => l.1 == some r) fun _ _ => rfl).imp
    fun _ _ ⟨hc, hrole⟩ => ⟨hc, eq_of_beq hrole⟩

lemma named : List.Forall₂ (fun c c' => TwinPart π stand t c.1 c'.1 ∧ R c c')
    cs.named.clean cs'.named.clean := by
  have hcomm {γ : Type} (cs : Valued γ) :
      cs.named.clean = cs.clean.filter fun c => c.1.isNamed := by
    rw [Valued.named, clean, clean, filter_filter, filter_filter]
    exact filter_congr fun c _ => Bool.and_comm _ _
  rw [hcomm, hcomm]
  exact (Tree.filter_rel h.parts fun c c' hc => hc.1.twin.isNamed).imp fun _ _ hc => hc.1

end

end Twins

end Valued

lemma forM_filter [Monad m] [LawfulMonad m] {f : α → m PUnit}
    (h : ∀ a ∈ l, q a = false → f a = pure ⟨⟩) : (l.filter q).forM f = l.forM f := by
  induction l with
  | nil => rfl
  | cons a l ih =>
    have hrest := ih fun a ha => h a (mem_cons_of_mem _ ha)
    have hcons (l : List α) : (a :: l).forM f = f a >>= fun _ => l.forM f := rfl
    cases ha : q a with
    | true => rw [filter_cons_of_pos ha, hcons, hcons, hrest]
    | false =>
      rw [filter_cons_of_neg (by simp [ha]), hcons, h a mem_cons_self ha, pure_bind, hrest]

lemma foldlM_filter [Monad m] [LawfulMonad m] {f : β → α → m β}
    (h : ∀ a ∈ l, q a = false → ∀ b, f b a = pure b) (b : β) :
    (l.filter q).foldlM f b = l.foldlM f b := by
  induction l generalizing b with
  | nil => rfl
  | cons a l ih =>
    have hrest := ih fun a ha => h a (mem_cons_of_mem _ ha)
    cases ha : q a with
    | true =>
      rw [filter_cons_of_pos ha, foldlM_cons, foldlM_cons]
      exact congrArg _ (funext hrest)
    | false =>
      rw [filter_cons_of_neg (by simp [ha]), foldlM_cons, h a mem_cons_self ha, pure_bind, hrest]

lemma Valued.forM_clean [Monad m] [LawfulMonad m] {cs : Valued α} {p : Tree × α → Bool}
    {f : Tree × α → m PUnit} (h : ∀ c ∈ cs, c.1.kind.isComment → f c = pure ⟨⟩) :
    (cs.named.filter p).forM f = (cs.named.clean.filter p).forM f := by
  rw [← forM_filter, clean,
    filter_filter, filter_filter]
  · exact congrArg (List.forM · f) (filter_congr fun c _ => Bool.and_comm _ _)
  · intro c hc hcomment
    exact h c (mem_filter.mp (mem_filter.mp hc).1).1 (by simpa using hcomment)

end Xref.Syntax

