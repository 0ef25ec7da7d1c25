import Xref.Proofs.Reference.InStep
import Xref.Proofs.Reference.Sound

/-!
# Twins mean the same

What twins mean as expressions, as calls and as values of annotation elements is found in step, if
that is so for their parts.
-/
open List Option

namespace Xref.Reference

open Declaration Java Resolve Syntax Text Tree Walk

structure Link.Twin (π : Pairing) (link link' : Link) : Prop where
  tree : IsTwin π link.tree link'.tree
  call : InStep π Eq link.call link'.call
  parts : InStep π Eq link.parts link'.parts

/-- Whatever is asked of the two meanings comes out in step. Only what is among the values of
annotation elements is asked for such a value. -/
structure Meaning.Twin (π : Pairing) (stand : Stand) (m m' : Meaning) : Prop where
  type : InStep π Eq m.type m'.type
  leftmost : InStep π Eq m.leftmost m'.leftmost
  steps : List.Forall₂ (fun f g => ∀ left, InStep π Eq (f left) (g left)) m.steps m'.steps
  operand : InStep π Eq m.operand m'.operand
  element : stand.isValue → InStep π Eq m.element m'.element
  links : List.Forall₂ (Link.Twin π) m.links m'.links
  visit : InStep π Eq m.visit m'.visit
  operands : List.Forall₂ (InStep π Eq) m.operands m'.operands

structure IsSilent (c : SensePart) : Prop where
  visit : c.2.value.visit = pure ()
  type : c.2.value.type = pure none

def SilentParts (cs : Sense) : Prop := ∀ c ∈ cs, c.1.kind.isComment → IsSilent c

/-- Twins with their meanings, and with those of their parts. -/
inductive Paired (π : Pairing) : Stand → SensePart → SensePart → Prop where
  | mk {stand : Stand} {c c' : SensePart} (htwin : Tree.Twin π stand c.1 c'.1)
      (hmeaning : c.2.value.Twin π stand c'.2.value)
      (htrees : c.2.parts.map Prod.fst = c.1.children)
      (htrees' : c'.2.parts.map Prod.fst = c'.1.children)
      (hsilent : SilentParts c.2.parts) (hsilent' : SilentParts c'.2.parts)
      (hparts : ∀ pair ∈ (Valued.clean c.2.parts).zip (Valued.clean c'.2.parts),
        Paired π (stand.enter c.1 pair.1.1) pair.1 pair.2) :
      Paired π stand c c'

structure PairedParts (π : Pairing) (stand : Stand) (t t' : Tree) (cs cs' : Sense) : Prop extends
    Valued.Twins π stand (fun c c' => Paired π (stand.enter t c.1) c c') t t' cs cs' where
  silent : SilentParts cs
  silent' : SilentParts cs'

lemma clean_trees {α : Type} {t : Tree} {cs : Valued α} (h : cs.map Prod.fst = t.children) :
    cs.clean.map Prod.fst = t.clean := by
  rw [clean, ← h, List.filter_map]
  rfl

section

variable {π : Pairing} {stand : Stand}
variable {c c' : SensePart} {t' : Tree} {cs cs' : Sense}

lemma Paired.meaning (h : Paired π stand c c') : c.2.value.Twin π stand c'.2.value := by
  cases h with
  | mk _ hmeaning => exact hmeaning

lemma Paired.twin (h : Paired π stand c c') : Tree.Twin π stand c.1 c'.1 := by
  cases h with
  | mk htwin => exact htwin

lemma twinParts_of_trees {t : Tree} (h : Tree.Twin π stand t t')
    (htrees : cs.map Prod.fst = t.children) (htrees' : cs'.map Prod.fst = t'.children) :
    List.Forall₂ (fun c c' => Tree.TwinPart π stand t c.1 c'.1) cs.clean cs'.clean := by
  have hparts := h.parts
  rw [← clean_trees htrees, ← clean_trees htrees'] at hparts
  simpa only [forall₂_map_left_iff, forall₂_map_right_iff] using hparts

lemma Paired.inner (h : Paired π stand c c') :
    PairedParts π stand c.1 c'.1 c.2.parts c'.2.parts := by
  cases h with
  | mk htwin _ htrees htrees' hsilent hsilent' hparts =>
    have htwins := twinParts_of_trees htwin htrees htrees'
    refine ⟨⟨htwin, htrees, htrees', ?_⟩, hsilent, hsilent'⟩
    rw [forall₂_iff_zip] at htwins ⊢
    exact ⟨htwins.1, fun hpair => ⟨htwins.2 hpair, hparts _ hpair⟩⟩

def Walk.typeOfPart (part : Option SensePart) : Walk (Option TypeName) :=
  match part with
  | some (_, meaning) => meaning.value.type
  | none => pure none

namespace PairedParts

variable {t : Tree} {q : Tree → Bool}

lemma forM (h : PairedParts π stand t t' cs cs') {p : Tree → Bool}
    (hp : ∀ c c', IsTwin π c c' → p c' = p c) {f g : SensePart → Walk Unit}
    (hf : ∀ c c', Tree.TwinPart π stand t c.1 c'.1 →
      Paired π (stand.enter t c.1) c c' → InStep π Eq (f c) (g c'))
    (hsilent : ∀ c, IsSilent c → c.1.kind.isComment → f c = pure ())
    (hsilent' : ∀ c, IsSilent c → c.1.kind.isComment → g c = pure ()) :
    InStep π Eq ((cs.named.filter fun c => p c.1).forM f)
      ((cs'.named.filter fun c => p c.1).forM g) := by
  rw [Valued.forM_clean fun c hc hcomment => hsilent c (h.silent c hc hcomment) hcomment,
    Valued.forM_clean fun c hc hcomment => hsilent' c (h.silent' c hc hcomment) hcomment]
  refine .forM (filter_rel h.named fun c c' hc => hp _ _ ⟨_, hc.1.twin⟩) fun c c' hc => ?_
  exact hf c c' hc.1.1 hc.1.2

lemma typeOfPart_of_comment (hsilent : SilentParts cs)
    (hnone : ((cs.named.find? fun c => q c.1).any fun c => !c.1.kind.isComment) = false) :
    typeOfPart (cs.named.find? fun c => q c.1) = pure none := by
  cases hfound : cs.named.find? fun c => q c.1 with
  | none => rfl
  | some c =>
    have hcomment : c.1.kind.isComment := by simpa [hfound] using hnone
    have hmem : c ∈ cs := Valued.mem_of_mem_named (mem_of_find?_eq_some hfound)
    exact (hsilent c hmem hcomment).type

lemma typeOfPart (h : PairedParts π stand t t' cs cs') {q' : Tree → Bool}
    (hq : ∀ c c', Tree.TwinPart π stand t c c' → q' c' = q c)
    (hforemost : ((t'.named.find? q').any fun c => !c.kind.isComment) =
      (t.named.find? q).any fun c => !c.kind.isComment) :
    InStep π Eq (typeOfPart (cs.named.find? fun c => q c.1))
      (typeOfPart (cs'.named.find? fun c => q' c.1)) := by
  have hany {t : Tree} {cs : Sense} (htrees : cs.map Prod.fst = t.children) (q : Tree → Bool) :
      ((t.named.find? q).any fun c => !c.kind.isComment) =
        (cs.named.find? fun c => q c.1).any fun c => !c.1.kind.isComment := by
    have hnamed : t.named = cs.named.map Prod.fst := by
      rw [named, ← htrees, List.filter_map]
      rfl
    rw [hnamed, find?_map, Option.any_map]
    rfl
  rw [hany h.trees, hany h.trees'] at hforemost
  cases hfirst : (cs.named.find? fun c => q c.1).any fun c => !c.1.kind.isComment with
  | false =>
    rw [hfirst] at hforemost
    rw [typeOfPart_of_comment h.silent hfirst, typeOfPart_of_comment h.silent' hforemost]
    exact .done none
  | true =>
    rw [hfirst] at hforemost
    obtain ⟨c, hc, hclean⟩ := (Option.any_eq_true _ _).mp hfirst
    obtain ⟨c', hc', hclean'⟩ := (Option.any_eq_true _ _).mp hforemost
    have hfound := find?_rel h.named fun c c' hpart => hq c.1 c'.1 hpart.1
    rw [Valued.clean, Valued.clean, find?_filter_of_find? hc hclean,
      find?_filter_of_find? hc' hclean'] at hfound
    rw [hc, hc']
    cases hfound with
    | some hpart => exact hpart.1.2.meaning.type

end PairedParts

variable {t : Tree}

/-- What twins have in common as parts of a tree: they begin at places that correspond, and their
texts are the same where they are read as a whole. -/
structure TwinText (π : Passage) (stand : Stand) (t t' : Tree) : Prop where
  start : t'.start = π.start t.start
  spelled : t.kind.isSpelled → t'.text π.source' = t.text π.source
  value : stand.isValue → t.isParted = false → t'.text π.source' = t.text π.source

lemma TwinText.of_part {c c' : Tree} (h : Tree.TwinPart π stand t c c') :
    TwinText π (stand.enter t c) c c' where
  start := h.start
  spelled hkind := h.text (isRead_of_kind hkind)
  value hstand hparted := h.text (isRead_of_value hstand hparted)

lemma dotted?_of_identifier (source : List Char) (h : t.kind = .identifier) :
    dotted? source t = some (t.text source) := by
  rw [dotted?, fold_eq]
  simp only [h]

lemma dotted?_of_access (source : List Char) (h : t.kind = .fieldAccess) : dotted? source t = do
    let object ← t.child? .object
    let field ← t.child? .field
    if field.kind != .identifier then none
    return (← dotted? source object) ++ "." ++ field.text source := by
  rw [dotted?, fold_eq]
  simp only [h, Valued.child?, find?_map, Function.comp_def, child?]
  cases t.children.find? fun c => c.role == some .object <;> rfl

lemma dotted?_of_other (source : List Char) (hname : t.kind ≠ .identifier)
    (haccess : t.kind ≠ .fieldAccess) : dotted? source t = none := by
  rw [dotted?, fold_eq]
  split
  case h_1 hkind => exact absurd hkind hname
  case h_2 hkind => exact absurd hkind haccess
  case h_3 => rfl

lemma dotted_of_twin (h : Tree.Twin π stand t t')
    (htext : t.kind = .identifier → t'.text π.source' = t.text π.source) :
    dotted? π.source' t' = dotted? π.source t := by
  revert htext
  refine Tree.Twin.induction (motive := fun _ t t' =>
    (t.kind = .identifier → t'.text π.source' = t.text π.source) →
      dotted? π.source' t' = dotted? π.source t) ?_ h
  intro stand t t' h hparts htext
  by_cases hname : t.kind = .identifier
  · rw [dotted?_of_identifier _ hname, dotted?_of_identifier _ (h.kind.trans hname), htext hname]
  by_cases haccess : t.kind = .fieldAccess
  · rw [dotted?_of_access _ haccess, dotted?_of_access _ (h.kind.trans haccess)]
    have hobject := h.find hparts (fun _ _ hc => hc.1.twin.label)
      (p := fun l => l.1 == some .object) fun _ _ => rfl
    rcases optionRel_cases hobject with ⟨ho, ho'⟩ | ⟨o, o', ho, ho', hpart⟩
    · rw [show t.child? .object = none from ho, show t'.child? .object = none from ho']
      rfl
    · rw [show t.child? .object = some o from ho, show t'.child? .object = some o' from ho']
      have hsame := hpart.1.2 fun hkind => hpart.1.1.text (isRead_of_kind (hkind ▸ rfl))
      refine rel_elim (h.child .field) rfl fun f f' hfield => ?_
      have htext := text_of_role hfield
      simp only [bind_eq_bind, bind_some, hsame, htext, hfield.1.twin.kind]
  · rw [dotted?_of_other _ hname haccess, dotted?_of_other _ (h.kind ▸ hname) (h.kind ▸ haccess)]

namespace InStep

variable {t : Tree}

lemma dotted (h : Tree.Twin π stand t t')
    (htext : t.kind = .identifier → t'.text π.source' = t.text π.source) :
    InStep π Eq (dotted t) (dotted t') := by
  refine .setting fun st st' hst => .pure ?_
  rw [hst.source, hst.source', dotted_of_twin h htext]

section

variable (h : PairedParts π stand t t' cs cs')
include h

lemma typeIn (r : Role) : InStep π Eq (Walk.typeIn cs r) (Walk.typeIn cs' r) := by
  unfold Walk.typeIn
  exact rel_elim (h.child r) (.done none) fun c c' hpart => hpart.1.2.meaning.type

lemma accessOperand : InStep π Eq (Walk.accessOperand t cs) (Walk.accessOperand t' cs') := by
  unfold Walk.accessOperand
  refine rel_elim (h.child .object) (.done _) fun o o' hobject => ?_
  refine rel_elim (h.twin.child .field) (.done _) fun f f' hfield => ?_
  refine .ite (by rw [hfield.1.twin.kind]) ?_ ?_
  · refine .andThen (.dotted hobject.1.1.twin fun hkind =>
      hobject.1.1.text (isRead_of_kind (hkind ▸ rfl))) fun name => ?_
    cases name with
    | none => exact .done _
    | some name => exact .andThen (.of (.resolveType? name)) fun _ => .done _
  · exact .andThen hobject.1.2.meaning.operand fun _ =>
      .andThen (.text (text_of_role hfield)) fun _ => .of (.memberOperand _ _)

lemma operandFrom (htext : TwinText π stand t t')
    {type type' : Walk (Option TypeName)} (htype : InStep π Eq type type') :
    InStep π Eq (Walk.operandFrom t cs type) (Walk.operandFrom t' cs' type') := by
  unfold Walk.operandFrom
  rw [h.twin.kind]
  split
  case h_1 hkind =>
    exact .andThen (.text (htext.spelled (hkind ▸ rfl))) fun _ => .of (.nameOperand _)
  case h_2 => exact .accessOperand h
  case h_3 => exact .andThen (.of .thisType) fun _ => .done _
  case h_4 => exact .andThen (.of .superType) fun _ => .done _
  case h_5 => exact .andThen htype fun _ => .done _

lemma outerType (hkind : t.kind = .objectCreationExpression)
    {type type' : Tree} (htype : t.child? .type = some type) (htype' : t'.child? .type = some type')
    (hpart : Tree.TwinPart π stand t type type') :
    InStep π Eq (outerType cs type) (outerType cs' type') := by
  have hforemost := h.twin.foremost
  simp only [foremost?, h.twin.kind, hkind, htype, htype', bind_some] at hforemost
  refine h.typeOfPart (fun c c' hc => ?_) hforemost
  have hbefore : c'.stop ≤ type'.start ↔ c.stop ≤ type.start := by
    rw [hc.stop, hpart.start, π.stop_le_start]
  simp only [hbefore, hc.twin.kind]

lemma creationOwner (hkind : t.kind = .objectCreationExpression) :
    InStep π Eq (Walk.creationOwner t cs) (Walk.creationOwner t' cs') := by
  unfold Walk.creationOwner
  rcases optionRel_cases (h.twin.child .type) with
    ⟨hc, hc'⟩ | ⟨type, type', hc, hc', hpart, hrole⟩
  · simp only [hc, hc']
    exact .done none
  have htype := hpart.type (isTyped_of_type hrole)
  simp only [hc, hc']
  refine .andThen (.erased htype.erased) fun written =>
    .andThen (.outerType h hkind hc hc' hpart) fun outer => ?_
  have hwritten : InStep π Eq (do return some (← Walk.typeName written))
      (do return some (← Walk.typeName written)) :=
    .andThen (.of (.typeName written)) fun _ => .done _
  cases outer with
  | none => exact hwritten
  | some outer =>
    refine .andThen (.pose (.memberType outer.name written)) fun member => ?_
    cases member with
    | none => exact hwritten
    | some member => exact .done _

end

lemma anonymousName (h : Tree.Twin π stand t t') :
    InStep π Eq (Walk.anonymousName t) (Walk.anonymousName t') := by
  unfold Walk.anonymousName
  exact rel_elim (h.childOf (k := .classBody) rfl) (.done none) fun c c' hpart =>
    .unitName hpart.1.start

lemma createdType (h : PairedParts π stand t t' cs cs')
    (hkind : t.kind = .objectCreationExpression) :
    InStep π Eq (createdType t cs) (createdType t' cs') := by
  refine .andThen (.anonymousName h.twin) fun name => ?_
  cases name with
  | none => exact .creationOwner h hkind
  | some name => exact .done _

def addedDims (source : List Char) (n : Nat) (c : Tree) : Nat :=
  match c.kind with
  | .dimensionsExpr => n + 1
  | .dimensions => n + Tree.countDims source (some c)
  | _ => n

lemma foldl_addedDims (h : Tree.Twin π stand t t') :
    t'.children.foldl (addedDims π.source') 0 = t.children.foldl (addedDims π.source) 0 := by
  have hclean (source : List Char) (t : Tree) :
      t.children.foldl (addedDims source) 0 = t.clean.foldl (addedDims source) 0 := by
    rw [clean, foldl_filter]
    refine congrArg (fun f => t.children.foldl f 0) (funext fun n => funext fun c => ?_)
    cases hcomment : c.kind.isComment with
    | false => simp
    | true => rcases Kind.isComment_cases hcomment with hkind | hkind <;> simp [addedDims, hkind]
  have hstep {c c' : Tree} (hc : Tree.TwinPart π stand t c c') (n : Nat) :
      addedDims π.source' n c' = addedDims π.source n c := by
    unfold addedDims
    rw [hc.twin.kind]
    split
    case h_1 | h_3 => rfl
    case h_2 hkind => simp only [countDims, map_some, hc.text (isRead_of_kind (hkind ▸ rfl))]
  have hrel {l l' : List Tree} (hl : List.Forall₂ (Tree.TwinPart π stand t) l l') (n : Nat) :
      l'.foldl (addedDims π.source') n = l.foldl (addedDims π.source) n := by
    induction hl generalizing n with
    | nil => rfl
    | cons hc _ ih => rw [foldl_cons, foldl_cons, hstep hc, ih]
  rw [hclean, hclean]
  exact hrel h.parts 0

lemma createdDims (h : Tree.Twin π stand t t') : InStep π Eq (createdDims t) (createdDims t') := by
  refine .setting fun st st' hst => .pure ?_
  rw [hst.source, hst.source']
  exact (foldl_addedDims h).symm

lemma typeOfFirst (h : PairedParts π stand t t' cs cs')
    (hkind : t.kind = .parenthesizedExpression ∨ t.kind = .updateExpression) :
    InStep π Eq (typeOfFirst cs) (typeOfFirst cs') := by
  have hhead {α : Type} (l : List α) : l.head? = l.find? fun _ => true := by cases l <;> rfl
  have hforemost := h.twin.foremost
  rw [foremost?, foremost?, h.twin.kind] at hforemost
  have hclean : (t'.named.head?.any fun c => !c.kind.isComment) =
      t.named.head?.any fun c => !c.kind.isComment := by
    rcases hkind with hkind | hkind <;> simpa only [hkind] using hforemost
  rw [hhead, hhead] at hclean
  have hfirst := h.typeOfPart (fun _ _ _ => rfl) hclean
  rw [← hhead, ← hhead] at hfirst
  exact hfirst

lemma binaryType (operator : String) (left : Option TypeName) {x y : Walk (Option TypeName)}
    (h : InStep π Eq x y) :
    InStep π Eq (Reference.binaryType operator left x) (Reference.binaryType operator left y) := by
  refine .ite .rfl (.done _) (.andThen h fun right => .ite .rfl (.done _) ?_)
  cases left with
  | none => exact .done none
  | some l =>
    cases right with
    | none => exact .done none
    | some r => exact .ite .rfl (.done _) (.ite .rfl (.done _) (.done _))

section

variable (h : PairedParts π stand t t' cs cs')
include h

lemma binaryStep (left : Option TypeName) :
    InStep π Eq (Walk.binaryStep t cs left) (Walk.binaryStep t' cs' left) := by
  unfold Walk.binaryStep
  exact rel_elim (h.twin.child .operator) (.done none) fun c c' hpart =>
    .andThen (.text (text_of_role hpart)) fun _ => .binaryType _ left (.typeIn h .right)

lemma leftmostOf : InStep π Eq (Walk.leftmostOf cs) (Walk.leftmostOf cs') := by
  unfold Walk.leftmostOf
  exact rel_elim (h.child .left) (.done none) fun c c' hpart => hpart.1.2.meaning.leftmost

lemma stepsOf : List.Forall₂ (fun f g => ∀ left, InStep π Eq (f left) (g left)) (stepsOf t cs)
    (stepsOf t' cs') := by
  refine rel_append ?_ (.cons (binaryStep h) .nil)
  exact rel_elim (h.child .left) .nil fun c c' hpart => hpart.1.2.meaning.steps

lemma typeFrom (htext : TwinText π stand t t')
    {call call' : Walk CallOutcome} (hcall : InStep π Eq call call') :
    InStep π Eq (Walk.typeFrom t cs call) (Walk.typeFrom t' cs' call') := by
  unfold Walk.typeFrom
  rw [h.twin.kind]
  split
  -- literals, and all that has no type
  any_goals exact .done _
  case h_1 hkind | h_2 hkind | h_3 hkind | h_4 hkind | h_5 hkind | h_6 hkind =>
    exact .andThen (.text (htext.spelled (hkind ▸ rfl))) fun _ => .done _
  case h_14 => exact .of .thisType
  case h_15 hkind =>
    exact .andThen (.text (htext.spelled (hkind ▸ rfl))) fun _ =>
      .andThen (.of (.value? _)) fun _ => .done _
  case h_16 =>
    refine .andThen (.accessOperand h) fun operand => ?_
    cases operand <;> exact .done _
  case h_17 => exact .andThen hcall fun _ => .done _
  case h_18 hkind => exact .createdType h hkind
  case h_19 =>
    exact rel_elim h.twin.typeIn (.done none) fun type type' htype =>
      .andThen (.createdDims h.twin) fun _ => .andThen (.typeNameAt htype.erased _) fun _ => .done _
  case h_20 =>
    exact rel_elim h.twin.typeIn (.done none) fun type type' htype =>
      .andThen (.typeNameAt htype.erased 0) fun _ => .done _
  case h_21 => exact .andThen (.typeIn h .array) fun _ => .done _
  case h_22 hkind => exact .typeOfFirst h (.inl hkind)
  case h_23 hkind => exact .typeOfFirst h (.inr hkind)
  case h_24 =>
    refine .andThen (.typeIn h .consequence) fun type => ?_
    cases type.filter _ with
    | none => exact .typeIn h .alternative
    | some type => exact .done _
  case h_25 =>
    exact .andThen (.leftmostOf h) fun leftmost =>
      .foldlM (stepsOf h) (fun left _ _ hstep => hstep left) leftmost
  case h_26 =>
    refine .andThen (.typeIn h .operand) fun operand => ?_
    cases operand with
    | none => exact .done none
    | some operand =>
      refine .ite ?_ (.done _) (.done _)
      refine rel_elim (h.twin.child .operator) .rfl fun _ _ hpart => ?_
      rw [any_some, any_some, hpart.1.twin.isLiteral]
  case h_27 => exact .typeIn h .left

end

end InStep

end

end Xref.Reference

