import Xref.Proofs.Syntax.Placement

/-!
# Comments put into a text

If comments are put between two tokens of a unit, the trees before them stay where they are and the
trees after them move. The unit that is read then is a twin of the old one, if the new comments
stand clear of what is read as a whole.
-/
open List Bool

namespace Xref.Text

lemma slice_insertion (before inserted after : List Char) {start stop start' stop' : Nat}
    (hstart : start' = if start < byteLength before then start else start + byteLength inserted)
    (hstop : stop' = if stop ≤ byteLength before then stop else stop + byteLength inserted)
    (h : stop' ≤ byteLength before ∨ byteLength before + byteLength inserted ≤ start') :
    slice start' stop' (before ++ (inserted ++ after)) = slice start stop (before ++ after) := by
  by_cases hempty : stop ≤ start
  · have hempty' : stop' ≤ start' := by
      rw [hstart, hstop]
      split <;> split <;> omega
    rw [slice_of_le hempty, slice_of_le hempty']
  by_cases hbefore : stop ≤ byteLength before
  · rw [if_pos hbefore] at hstop
    rw [if_pos (by omega)] at hstart
    rw [hstart, hstop, slice_append_of_le hbefore, slice_append_of_le hbefore]
  · rw [if_neg hbefore] at hstop
    have hafter : ¬ start < byteLength before := by
      intro hlt
      rw [if_pos hlt] at hstart
      omega
    rw [if_neg hafter] at hstart
    obtain ⟨i, rfl⟩ := Nat.exists_eq_add_of_le (Nat.le_of_not_lt hafter)
    obtain ⟨j, rfl⟩ := Nat.exists_eq_add_of_le (Nat.le_of_not_le hbefore)
    have hmoved : start' = byteLength (before ++ inserted) + i ∧
        stop' = byteLength (before ++ inserted) + j := by
      rw [byteLength_append]
      omega
    rw [hmoved.1, hmoved.2, ← append_assoc, slice_append_add, slice_append_add]

end Xref.Text

namespace Xref.Syntax

open Text

/-- The way to the text that has `inserted` between `before` and `after`. -/
def Passage.insertion (before inserted after : List Char) : Passage where
  source := before ++ after
  source' := before ++ (inserted ++ after)
  start a := if a < byteLength before then a else a + byteLength inserted
  stop a := if a ≤ byteLength before then a else a + byteLength inserted
  start_inj := by
    intro a b h
    split at h <;> split at h <;> omega
  stop_le_start := by
    intro a b
    split <;> split <;> omega
  isFixed := False
  fixed := False.elim

namespace Tree

mutual

def decEq : (a b : Tree) → Decidable (a = b)
  | leaf role kind range text, leaf role' kind' range' text' =>
    decidable_of_iff (role = role' ∧ kind = kind' ∧ range = range' ∧ text = text') (by simp)
  | node role kind range cs, node role' kind' range' cs' =>
    have := decEqAll cs cs'
    decidable_of_iff (role = role' ∧ kind = kind' ∧ range = range' ∧ cs = cs') (by simp)
  | leaf .., node .. => isFalse nofun
  | node .., leaf .. => isFalse nofun

def decEqAll : (cs cs' : List Tree) → Decidable (cs = cs')
  | [], [] => isTrue rfl
  | c :: cs, c' :: cs' =>
    have := decEq c c'
    have := decEqAll cs cs'
    decidable_of_iff (c = c' ∧ cs = cs') (by simp)
  | [], _ :: _ => isFalse nofun
  | _ :: _, [] => isFalse nofun

end

instance : DecidableEq Tree := decEq

def remade (range : Range) (cs : List Tree) : Tree → Tree
  | leaf role kind _ text => leaf role kind range text
  | node role kind _ _ => node role kind range cs

def moved (π : Passage) : Tree → Tree :=
  fold fun t cs => t.remade ⟨π.start t.start, π.stop t.stop⟩ (cs.map Prod.snd)

def without (p : Tree → Bool) : Tree → Tree :=
  fold fun t cs => t.remade t.range ((cs.filter fun c => !p c.1).map Prod.snd)

section

variable (π : Passage) (p : Tree → Bool) (t : Tree)

lemma moved_eq : t.moved π =
    t.remade ⟨π.start t.start, π.stop t.stop⟩ (t.children.map (moved π)) := by
  rw [moved, fold_eq, map_map]
  rfl

lemma without_eq : t.without p =
    t.remade t.range ((t.children.filter fun c => !p c).map (without p)) := by
  rw [without, fold_eq, filter_map, map_map]
  rfl

section

variable (range : Range) (cs : List Tree)

@[simp] lemma label_remade : (t.remade range cs).label = t.label := by
  cases t <;> rfl

@[simp] lemma range_remade : (t.remade range cs).range = range := by
  cases t <;> rfl

@[simp] lemma leafText_remade : (t.remade range cs).leafText? = t.leafText? := by
  cases t <;> rfl

end

lemma label_moved : (t.moved π).label = t.label := by rw [moved_eq, label_remade]

lemma label_without : (t.without p).label = t.label := by rw [without_eq, label_remade]

lemma children_moved : (t.moved π).children = t.children.map (moved π) := by
  rw [moved_eq]
  cases t <;> rfl

lemma children_without :
    (t.without p).children = (t.children.filter fun c => !p c).map (without p) := by
  rw [without_eq]
  cases t <;> rfl

lemma start_moved : (t.moved π).start = π.start t.start := by rw [moved_eq, start, range_remade]

lemma stop_moved : (t.moved π).stop = π.stop t.stop := by rw [moved_eq, stop, range_remade]

lemma kind_moved : (t.moved π).kind = t.kind := congrArg Prod.snd (label_moved π t)

lemma role_moved : (t.moved π).role = t.role := congrArg Prod.fst (label_moved π t)

lemma kind_without : (t.without p).kind = t.kind := congrArg Prod.snd (label_without p t)

lemma foremost?_moved : (t.moved π).foremost? = t.foremost?.map (moved π) := by
  have hnamed : (t.moved π).named = t.named.map (moved π) := by
    rw [named, named, children_moved, filter_map]
    exact congrArg (List.map _) (filter_congr fun c _ => by
      rw [Function.comp_apply, isNamed, isNamed, kind_moved])
  have htype : (t.moved π).child? .type = (t.child? .type).map (moved π) := by
    rw [child?, child?, children_moved, find?_map]
    exact congrArg (Option.map _) (congrArg (t.children.find? ·) (funext fun c => by
      rw [Function.comp_apply, role_moved]))
  unfold foremost?
  rw [kind_moved, hnamed, htype]
  split
  · rw [head?_map]
  · rw [head?_map]
  · cases t.child? .type with
    | none => rfl
    | some type =>
      simp only [Option.map_some, Option.bind_some, find?_map, Function.comp_def, stop_moved,
        start_moved, π.stop_le_start, kind_moved]
  · rfl

end

def isCommentWithin (lo hi : Nat) (c : Tree) : Bool :=
  c.kind.isComment && lo ≤ c.start && c.start < hi

/-- Whether the comments between two places stand clear of all that is read as a whole in a tree:
they are not in it, and they do not come in front of an operand. -/
def isClear (lo hi : Nat) : Tree → Stand → Bool :=
  fold fun t cs stand =>
    (t.foremost?.any (fun c => !c.kind.isComment) ==
        (t.without (isCommentWithin lo hi)).foremost?.any fun c => !c.kind.isComment) &&
      (!(stand.isValue && t.kind == .classLiteral) ||
        t.named.head?.all fun c => !isCommentWithin lo hi c) &&
      cs.all fun c => c.1.kind.isComment ||
        (!isRead stand t c.1 || c.1.stop ≤ lo || hi ≤ c.1.start) && c.2 (stand.enter t c.1)

structure Clear (lo hi : Nat) (stand : Stand) (t : Tree) : Prop where
  foremost : t.foremost?.any (fun c => !c.kind.isComment) =
    (t.without (isCommentWithin lo hi)).foremost?.any fun c => !c.kind.isComment
  literal : stand.isValue → t.kind = .classLiteral →
    ∀ c, t.named.head? = some c → isCommentWithin lo hi c = false
  apart : ∀ c ∈ t.clean, isRead stand t c → c.stop ≤ lo ∨ hi ≤ c.start
  parts : ∀ c ∈ t.clean, c.isClear lo hi (stand.enter t c)

lemma clear_of_isClear {lo hi : Nat} {stand : Stand} {t : Tree} (h : t.isClear lo hi stand) :
    Clear lo hi stand t := by
  rw [isClear, fold_eq, and_eq_true, and_eq_true] at h
  obtain ⟨⟨hforemost, hliteral⟩, hchildren⟩ := h
  rw [all_map, all_eq_true] at hchildren
  have hpart (c : Tree) (hc : c ∈ t.clean) :
      (isRead stand t c → c.stop ≤ lo ∨ hi ≤ c.start) ∧ c.isClear lo hi (stand.enter t c) := by
    obtain ⟨hmem, hcomment⟩ := mem_filter.mp hc
    have hplain : c.kind.isComment = false := by simpa using hcomment
    have hclear := hchildren c hmem
    simp only [Function.comp_apply, hplain, Bool.false_or, and_eq_true, or_eq_true,
      not_eq_true', decide_eq_true_eq] at hclear
    refine ⟨fun hread => ?_, hclear.2⟩
    rcases hclear.1 with (hnot | hbefore) | hafter
    · rw [hread] at hnot
      cases hnot
    · exact .inl hbefore
    · exact .inr hafter
  refine ⟨eq_of_beq hforemost, fun hvalue hkind c hc => ?_, fun c hc => (hpart c hc).1,
    fun c hc => (hpart c hc).2⟩
  simpa [hvalue, hkind, hc] using hliteral

section

variable {before inserted after : List Char} {stand : Stand} {t t' : Tree}

def isInserted (before inserted : List Char) : Tree → Bool :=
  isCommentWithin (byteLength before) (byteLength before + byteLength inserted)

/-- Leaving the comments of an insertion out of `t'` gives `t`, where it stands after it. -/
def IsCopy (before inserted after : List Char) (t t' : Tree) : Prop :=
  t'.without (isInserted before inserted) = t.moved (.insertion before inserted after)

lemma comment_of_inserted {c : Tree} (h : isInserted before inserted c) : c.kind.isComment := by
  simp only [isInserted, isCommentWithin, and_eq_true] at h
  exact h.1.1

namespace IsCopy

section

variable (h : IsCopy before inserted after t t')
include h

lemma label : t'.label = t.label := by
  rw [← label_without (isInserted before inserted) t', h, label_moved]

lemma kind : t'.kind = t.kind := congrArg Prod.snd h.label

lemma leafText : t'.leafText? = t.leafText? := by
  have htext := congrArg leafText? h
  rwa [without_eq, moved_eq, leafText_remade, leafText_remade] at htext

lemma range : t'.start = (Passage.insertion before inserted after).start t.start ∧
    t'.stop = (Passage.insertion before inserted after).stop t.stop := by
  have hrange := congrArg Tree.range h
  rw [without_eq, moved_eq, range_remade, range_remade] at hrange
  exact ⟨congrArg Range.start hrange, congrArg Range.stop hrange⟩

end

lemma parts (h : (t'.without (isInserted before inserted)).children =
      (t.moved (.insertion before inserted after)).children) :
    List.Forall₂ (IsCopy before inserted after) t.children
      (t'.children.filter fun c => !isInserted before inserted c) := by
  rw [children_without, children_moved] at h
  have hsame : List.Forall₂ Eq (t.children.map (moved (.insertion before inserted after)))
      ((t'.children.filter fun c => !isInserted before inserted c).map
        (without (isInserted before inserted))) := by
    rw [h, forall₂_eq_eq_eq]
  rw [forall₂_map_left_iff, forall₂_map_right_iff] at hsame
  exact hsame.imp fun _ _ hc => hc.symm

section

variable (h : List.Forall₂ (IsCopy before inserted after) t.children
  (t'.children.filter fun c => !isInserted before inserted c))
include h

lemma clean : List.Forall₂ (IsCopy before inserted after) t.clean t'.clean := by
  have hclean : t'.clean = (t'.children.filter fun c => !isInserted before inserted c).filter
      fun c => !c.kind.isComment := by
    rw [Tree.clean, filter_filter]
    refine filter_congr fun c _ => ?_
    cases hcomment : c.kind.isComment with
    | true => rfl
    | false =>
      have hnot : isInserted before inserted c = false := by
        refine eq_false_iff.mpr fun hinserted => ?_
        rw [comment_of_inserted hinserted] at hcomment
        cases hcomment
      rw [hnot]
      rfl
  rw [hclean]
  exact (filter_rel h fun c c' hc => by rw [hc.kind]).imp fun _ _ hc => hc.1

lemma headNamed (hfirst : ∀ c, t'.named.head? = some c → isInserted before inserted c = false) :
    Option.Rel (IsCopy before inserted after) t.named.head? t'.named.head? := by
  have hnamed := filter_rel (p := Tree.isNamed) (q := Tree.isNamed) h fun c c' hc => by
    rw [Tree.isNamed, Tree.isNamed, hc.kind]
  have hhead : ((t'.children.filter fun c => !isInserted before inserted c).filter
      Tree.isNamed).head? = t'.named.head? := by
    rw [filter_filter, filter_congr fun c _ => Bool.and_comm _ _, ← filter_filter]
    change (t'.named.filter _).head? = _
    cases hcs : t'.named with
    | nil => rfl
    | cons c cs =>
      have hc : isInserted before inserted c = false := hfirst c (hcs ▸ rfl)
      rw [filter_cons_of_pos (by simp [hc])]
      rfl
  rw [← hhead]
  exact optionRel_imp (head?_rel hnamed) fun c c' hc => hc.1

end

lemma enter {c c' : Tree} (hkind : t'.kind = t.kind) (h : IsCopy before inserted after c c') :
    stand.enter t' c' = stand.enter t c := by
  have hrole : c'.role = c.role := congrArg Prod.fst h.label
  rw [Stand.enter, Stand.enter, hkind, h.kind, hrole]

section

variable (h : IsCopy before inserted after t t')
include h

lemma text
    (hapart : t'.stop ≤ byteLength before ∨ byteLength before + byteLength inserted ≤ t'.start) :
    t'.text (before ++ (inserted ++ after)) = t.text (before ++ after) := by
  obtain ⟨hstart, hstop⟩ := h.range
  have hleaf := h.leafText
  cases t with
  | leaf role kind range text =>
    cases t' with
    | node => cases hleaf
    | leaf role' kind' range' text' => exact Option.some.inj hleaf
  | node role kind range cs =>
    cases t' with
    | leaf => cases hleaf
    | node role' kind' range' cs' =>
      exact congrArg String.ofList (slice_insertion before inserted after hstart hstop hapart)

lemma isComposed : t'.isComposed = t.isComposed := by
  have hclean := clean (parts (congrArg Tree.children h))
  have hcomment (c : Tree) (hc : c.kind.isComment) :
      [Kind.typeIdentifier, .scopedTypeIdentifier].contains c.kind = false := by
    revert hc
    cases c.kind <;> decide
  unfold Tree.isComposed
  rw [h.kind]
  split
  · rw [any_clean hcomment, any_clean hcomment]
    exact any_eq_of_rel hclean fun c c' hc => by rw [hc.kind]
  · rfl
  · rfl
  · rfl
  · rfl

lemma erased_of_comment (hcomment : t.kind.isComment)
    (haside : t.IsAside) (source source' : List Char) : t'.erased source' = t.erased source := by
  have hleaf := h.leafText
  have hkind := h.kind
  cases t with
  | node => cases haside.leaf
  | leaf role kind range text =>
    cases t' with
    | node => cases hleaf
    | leaf role' kind' range' text' =>
      obtain rfl : kind' = kind := hkind
      obtain rfl : text' = text := Option.some.inj hleaf
      change kind'.isComment at hcomment
      obtain rfl | rfl := Kind.isComment_cases hcomment <;> rfl

end

lemma isRead {c c' : Tree} (hkind : t'.kind = t.kind) (h : IsCopy before inserted after c c') :
    Tree.isRead stand t' c' = Tree.isRead stand t c := by
  have hrole : c'.role = c.role := congrArg Prod.fst h.label
  have hcomposed := h.isComposed
  rw [Tree.isRead, Tree.isRead, isTyped, isTyped, isParted, isParted, enter hkind h, hcomposed,
    hkind, h.kind, hrole]

end IsCopy

lemma twin_of_parts (hlabel : t'.label = t.label) (hleaf : t'.leafText? = t.leafText?)
    (hcopies : List.Forall₂ (IsCopy before inserted after) t.children
      (t'.children.filter fun c => !isInserted before inserted c))
    (hforemost : ((t'.without (isInserted before inserted)).foremost?.any fun c =>
      !c.kind.isComment) = t.foremost?.any fun c => !c.kind.isComment)
    (hair : t.Aired) (hair' : t'.Aired)
    (hclear : Clear (byteLength before) (byteLength before + byteLength inserted) stand t')
    (htwins : ∀ c ∈ t.children, ∀ c' ∈ t'.children, IsCopy before inserted after c c' →
      c'.isClear (byteLength before) (byteLength before + byteLength inserted)
        (stand.enter t' c') → Twin (.insertion before inserted after) (stand.enter t c) c c') :
    Twin (.insertion before inserted after) stand t t' := by
  have hkind : t'.kind = t.kind := congrArg Prod.snd hlabel
  have hpart (c c' : Tree) (hc : c ∈ t.children) (hc' : c' ∈ t'.clean)
      (hcopy : IsCopy before inserted after c c') :
      TwinPart (.insertion before inserted after) stand t c c' := by
    have hmem := (mem_filter.mp hc').1
    refine ⟨htwins c hc c' hmem hcopy (hclear.parts c' hc'), hcopy.range.1, hcopy.range.2,
      fun hread => hcopy.text (hclear.apart c' hc' ?_)⟩
    rwa [hcopy.isRead hkind]
  have hclean := forall₂_iff_zip.mp (IsCopy.clean hcopies)
  have hparts : ∀ pair ∈ t.clean.zip t'.clean,
      TwinPart (.insertion before inserted after) stand t pair.1 pair.2 := by
    intro pair hpair
    obtain ⟨hc, hc'⟩ := of_mem_zip hpair
    exact hpart _ _ (mem_filter.mp hc).1 hc' (hclean.2 hpair)
  have hliteral (hvalue : stand.isValue) (hclass : t.kind = .classLiteral) :
      t'.named.head?.map (erased (before ++ (inserted ++ after))) =
        t.named.head?.map (erased (before ++ after)) := by
    rcases optionRel_cases (IsCopy.headNamed hcopies
      (hclear.literal hvalue (hkind.trans hclass))) with ⟨hc, hc'⟩ | ⟨c, c', hc, hc', hcopy⟩
    · rw [hc, hc']
      rfl
    · have hmem : c ∈ t.children := (mem_filter.mp (mem_of_head? hc)).1
      have hmem' : c' ∈ t'.children := (mem_filter.mp (mem_of_head? hc')).1
      rw [hc, hc']
      refine congrArg some ?_
      cases hcomment : c.kind.isComment with
      | true => exact hcopy.erased_of_comment hcomment (hair.aside c hmem hcomment) _ _
      | false =>
        have hplain : c' ∈ t'.clean := mem_filter.mpr ⟨hmem', by rw [hcopy.kind, hcomment]; rfl⟩
        have htyped : isTyped t c := by simp [isTyped, hclass]
        exact ((hpart c c' hmem hplain hcopy).type htyped).erased
  refine .mk hlabel False.elim hleaf hair.aside hair'.aside (hclear.foremost.trans hforemost)
    hliteral hclean.1 (fun pair hpair => (hparts pair hpair).twin)
    (fun pair hpair => ⟨(hparts pair hpair).start, (hparts pair hpair).stop⟩)
    fun pair hpair => (hparts pair hpair).text

lemma IsCopy.twin (h : IsCopy before inserted after t t') (hair : t.Aired) (hair' : t'.Aired)
    (hclear : t'.isClear (byteLength before) (byteLength before + byteLength inserted) stand) :
    Twin (.insertion before inserted after) stand t t' := by
  induction t using Tree.induction generalizing t' stand with
  | step t ih =>
    have hforemost : ((t'.without (isInserted before inserted)).foremost?.any fun c =>
        !c.kind.isComment) = t.foremost?.any fun c => !c.kind.isComment := by
      rw [show t'.without (isInserted before inserted) = _ from h, foremost?_moved, Option.any_map]
      exact congrArg (t.foremost?.any ·) (funext fun c => by rw [kind_moved])
    refine twin_of_parts h.label h.leafText (IsCopy.parts (congrArg Tree.children h)) hforemost
      hair hair' (clear_of_isClear hclear) fun c hc c' hc' hcopy hpart => ?_
    rw [hcopy.enter h.kind] at hpart
    exact ih c hc hcopy (hair.parts c hc) (hair'.parts c' hc') hpart

lemma twin_of_insertion {unit unit' : Tree} (hlabel : unit'.label = unit.label)
    (hleaf : unit'.leafText? = unit.leafText?) (hkind : unit.kind = .program)
    (hcopy : (unit'.without (isInserted before inserted)).children =
      (unit.moved (.insertion before inserted after)).children)
    (hair : unit.Aired) (hair' : unit'.Aired)
    (hclear : unit'.isClear (byteLength before) (byteLength before + byteLength inserted) stand) :
    Twin (.insertion before inserted after) stand unit unit' := by
  have hkind' : unit'.kind = unit.kind := congrArg Prod.snd hlabel
  have hforemost : ((unit'.without (isInserted before inserted)).foremost?.any fun c =>
      !c.kind.isComment) = unit.foremost?.any fun c => !c.kind.isComment := by
    rw [foremost?, foremost?, kind_without, hkind', hkind]
  refine twin_of_parts hlabel hleaf (IsCopy.parts hcopy) hforemost hair hair'
    (clear_of_isClear hclear) fun c hc c' hc' hcopy hpart => ?_
  rw [hcopy.enter hkind'] at hpart
  exact hcopy.twin (hair.parts c hc) (hair'.parts c' hc') hpart

end

end Tree

end Xref.Syntax

