import Xref.Proofs.Reference.Classes

/-!
# Binary names

The classes of a type that have no name of their own are numbered in the order in which they begin,
and so are its local classes of one simple name. If no identifier has a `$` and no two types in one
body or at the top have the same simple name, then no two classes of a unit have the same binary
name: it says which class is around, and which number was given out or which member is meant.
-/
open List Option String

namespace Xref.Reference

open Declaration Java Syntax Text Kind Spot

section

lemma append_cons_inj {α : Type} {x : α} {a a' b b' : List α} (hb : x ∉ b) (hb' : x ∉ b')
    (h : a ++ x :: b = a' ++ x :: b') : a = a' ∧ b = b' := by
  rcases append_eq_append_iff.mp h with ⟨c, rfl, hc⟩ | ⟨c, rfl, hc⟩
  · cases c with
    | nil => exact ⟨by simp, by simpa using hc⟩
    | cons y c =>
      obtain ⟨rfl, rfl⟩ : y = x ∧ b = c ++ x :: b' := by simpa [eq_comm] using hc
      simp at hb
  · cases c with
    | nil => exact ⟨by simp, by simpa using hc.symm⟩
    | cons y c =>
      obtain ⟨rfl, rfl⟩ : y = x ∧ b' = c ++ x :: b := by simpa [eq_comm] using hc
      simp at hb'

variable {c : Char}

lemma isDigit_of_mem_toString {n : Nat} (h : c ∈ (toString n).toList) : c.isDigit := by
  rw [Nat.toString_eq_repr, Nat.toList_repr] at h
  exact Nat.isDigit_of_mem_toDigits (by decide) (by decide) h

lemma toString_inj {n n' : Nat} (h : toString n = toString n') : n = n' := by
  have hparsed := congrArg (fun s : String => Nat.ofDigitChars 10 s.toList 0) h
  simpa using hparsed

lemma toString_ne_empty (n : Nat) : toString n ≠ "" := by
  intro h
  have hlist := congrArg String.toList h
  rw [Nat.toString_eq_repr, Nat.toList_repr] at hlist
  exact Nat.toDigits_ne_nil hlist

lemma isDigit_of_isIdentifierStart (h : isIdentifierStart c) : c.isDigit = false := by
  by_contra hdigit
  have hrange : 48 ≤ c.toNat ∧ c.toNat ≤ 57 := by
    simpa [Char.isDigit, UInt32.le_iff_toNat_le] using hdigit
  have hall : ∀ n < 58, 48 ≤ n → isIdentifierStart (Char.ofNat n) = false := by decide +kernel
  have hc := hall c.toNat (by omega) hrange.1
  rw [Char.ofNat_toNat, h] at hc
  cases hc

namespace Naming

/-- The class whose name stands in front. -/
def owner? : Naming → Option String
  | top _ _ => none
  | member owner _ | numbered (.anonymous owner) _ | numbered (.inCode owner _) _ => some owner

def digits : Naming → String
  | top _ _ | member _ _ => ""
  | numbered _ number => toString number

/-- The simple name at the end of a name. An anonymous class has none. -/
def simple : Naming → String
  | top _ simple | member _ simple | numbered (.inCode _ simple) _ => simple
  | numbered (.anonymous _) _ => ""

/-- The simple name, if there is one, passes `P`. -/
def Calls (P : String → Prop) : Naming → Prop
  | numbered (.anonymous _) _ => True
  | top _ simple | member _ simple | numbered (.inCode _ simple) _ => P simple

/-- The simple name, if there is one, is an identifier without `$`. -/
abbrev IsRegular (n : Naming) : Prop :=
  n.Calls fun simple => isIdentifier simple ∧ '$' ∉ simple.toList

variable {n n' : Naming} {o o' : String} {P : String → Prop}

lemma top_or_owned (n : Naming) :
    (∃ package simple, n = top package simple) ∨ ∃ owner, n.owner? = some owner := by
  cases n with
  | top package simple => exact .inl ⟨package, simple, rfl⟩
  | member owner simple => exact .inr ⟨owner, rfl⟩
  | numbered counter number => cases counter <;> exact .inr ⟨_, rfl⟩

lemma text_of_owner (h : n.owner? = some o) : n.text = o ++ "$" ++ (n.digits ++ n.simple) := by
  cases n with
  | top package simple => cases h
  | member owner simple =>
    obtain rfl : owner = o := some.inj h
    simp [text, digits, Naming.simple]
  | numbered counter number =>
    cases counter with
    | anonymous owner =>
      obtain rfl : owner = o := some.inj h
      simp [text, digits, Naming.simple]
    | inCode owner simple =>
      obtain rfl : owner = o := some.inj h
      simp [text, digits, Naming.simple, String.append_assoc]

lemma Calls.simple_cases (h : n.Calls P) : n.simple = "" ∨ P n.simple := by
  cases n with
  | top package simple => exact .inr h
  | member owner simple => exact .inr h
  | numbered counter number =>
    cases counter with
    | anonymous owner => exact .inl rfl
    | inCode owner simple => exact .inr h

lemma isDigit_of_digits {c : Char} (h : c ∈ n.digits.toList) : c.isDigit := by
  cases n with
  | numbered counter number => exact isDigit_of_mem_toString h
  | _ => simp [digits] at h

lemma not_mem {x : Char} (h : n.simple = "" ∨ x ∉ n.simple.toList) (hx : x.isDigit = false) :
    x ∉ (n.digits ++ n.simple).toList := by
  rw [toList_append, mem_append, not_or]
  refine ⟨fun hdigits => by simp [isDigit_of_digits hdigits] at hx, ?_⟩
  rcases h with hsimple | hsimple
  · simp [hsimple]
  · exact hsimple

lemma Calls.of_simple (h : P n.simple) : n.Calls P := by
  cases n with
  | numbered counter =>
    cases counter with
    | anonymous => trivial
    | inCode => exact h
  | _ => exact h

lemma Calls.dollar (h : n.IsRegular) : '$' ∉ (n.digits ++ n.simple).toList :=
  not_mem (h.simple_cases.imp_right And.right) rfl

lemma Calls.takeWhile (h : n.IsRegular) :
    (n.digits ++ n.simple).toList.takeWhile Char.isDigit = n.digits.toList := by
  rw [toList_append, takeWhile_append_of_pos fun c hc => isDigit_of_digits hc]
  rcases h.simple_cases with hsimple | ⟨hidentifier, _⟩
  · simp [hsimple]
  · obtain ⟨c, cs, htext, hstart, _⟩ := isIdentifier_iff.mp hidentifier
    simp [htext, isDigit_of_isIdentifierStart hstart]

lemma eq_of_parts (h : n.IsRegular) (h' : n'.IsRegular) (ho : n.owner? = some o)
    (ho' : n'.owner? = some o) (hdigits : n.digits = n'.digits) (hsimple : n.simple = n'.simple) :
    n = n' := by
  cases n with
  | top package simple => cases ho
  | member owner simple =>
    cases n' with
    | top package' simple' => cases ho'
    | member owner' simple' => rw [some.inj (ho.trans ho'.symm), show simple = simple' from hsimple]
    | numbered counter' number' => exact absurd hdigits.symm (toString_ne_empty number')
  | numbered counter number =>
    cases n' with
    | top package' simple' => cases ho'
    | member owner' simple' => exact absurd hdigits (toString_ne_empty number)
    | numbered counter' number' =>
      rw [toString_inj hdigits]
      cases counter with
      | anonymous owner =>
        cases counter' with
        | anonymous owner' => rw [some.inj (ho.trans ho'.symm)]
        | inCode owner' simple' => exact absurd hsimple.symm (ne_empty_of_identifier h'.1)
      | inCode owner simple =>
        cases counter' with
        | anonymous owner' => exact absurd hsimple (ne_empty_of_identifier h.1)
        | inCode owner' simple' =>
          rw [some.inj (ho.trans ho'.symm), show simple = simple' from hsimple]

lemma eq_of_text (h : n.IsRegular) (h' : n'.IsRegular) (ho : n.owner? = some o)
    (ho' : n'.owner? = some o') (htext : n.text = n'.text) : n = n' := by
  rw [text_of_owner ho, text_of_owner ho'] at htext
  have hlist := congrArg String.toList htext
  simp only [toList_append, List.append_assoc] at hlist
  have hcut : o.toList ++ '$' :: (n.digits ++ n.simple).toList =
      o'.toList ++ '$' :: (n'.digits ++ n'.simple).toList := by
    simpa [toList_append] using hlist
  obtain ⟨howner, hsegment⟩ := append_cons_inj h.dollar h'.dollar hcut
  have howner : o = o' := toList_inj.mp howner
  have hdigits : n.digits = n'.digits := by
    rw [← toList_inj, ← h.takeWhile, ← h'.takeWhile, hsegment]
  have hsimple : n.simple = n'.simple := by
    rw [toList_append, toList_append, hdigits] at hsegment
    exact toList_inj.mp (append_cancel_left hsegment)
  subst howner
  exact eq_of_parts h h' ho ho' hdigits hsimple

end Naming

end

def allTrees (p : Tree → Bool) : Tree → Bool :=
  Tree.fold fun t cs => p t && cs.all fun c => c.2

def bodyTrees (b : Tree) : List Tree :=
  b.children.flatMap fun c => if c.kind == .enumBodyDeclarations then c.children else [c]

def memberTrees (t : Tree) : List Tree :=
  if t.kind == .classBody then bodyTrees t
  else (t.children.filter fun b => b.role == some .body).flatMap bodyTrees

/-- Whether no two types that are declared by these trees have the same simple name. -/
def areDistinct (source : List Char) (ts : List Tree) : Bool :=
  ((ts.filter fun t => t.kind.isTypeDeclaration).map (Tree.nameText? source)).Nodup

def hasPlainIdentifiers (source : List Char) (unit : Tree) : Bool :=
  allTrees (fun t => t.kind != .identifier || !(t.text source).toList.contains '$') unit

/-- Whether there is no `$` in an identifier, and no two types at the top or in one body have the
same simple name. -/
def hasDistinctNames (source : List Char) (unit : Tree) : Bool :=
  areDistinct source unit.children && allTrees (fun t =>
    (t.kind != .identifier || !(t.text source).toList.contains '$') &&
      (!t.kind.isHeaded || areDistinct source (memberTrees t))) unit

variable {d : Declarations} {source : List Char} {s : Spot}

section

variable {t : Tree} {v : View} {s' : Spot} {p : Tree → Bool}

lemma allTrees_iff : allTrees p t ↔ p t ∧ ∀ c ∈ t.children, allTrees p c := by
  rw [allTrees, Tree.fold_eq, Bool.and_eq_true, List.all_map, List.all_eq_true]
  rfl

lemma plain_of_distinct (h : hasDistinctNames source t) : hasPlainIdentifiers source t := by
  have hall := ((Bool.and_eq_true _ _).mp h).2
  clear h
  induction t using Tree.induction with
  | step t ih =>
    obtain ⟨hself, hparts⟩ := allTrees_iff.mp hall
    exact allTrees_iff.mpr ⟨((Bool.and_eq_true _ _).mp hself).1, fun c hc => ih c hc (hparts c hc)⟩

lemma of_allTrees (h : allTrees p t) (hs : s ∈ spots d source t v) : p s.tree :=
  (allTrees_iff.mp (of_mem_spots (fun _ h => (allTrees_iff.mp h).2)
    h hs)).1

lemma eq_of_areDistinct {ts : List Tree} {t' : Tree} (h : areDistinct source ts) (ht : t ∈ ts)
    (ht' : t' ∈ ts) (hkind : t.kind.isTypeDeclaration) (hkind' : t'.kind.isTypeDeclaration)
    (hname : t.nameText? source = t'.nameText? source) : t = t' :=
  inj_on_of_nodup_map (of_decide_eq_true h) (mem_filter.mpr ⟨ht, hkind⟩)
    (mem_filter.mpr ⟨ht', hkind'⟩) hname

lemma eq_of_start (hheads : t.heads.Pairwise (· < ·)) (hs : s ∈ spots d source t v)
    (hs' : s' ∈ spots d source t v) (hhead : s.isHead) (hhead' : s'.isHead)
    (hstart : s.tree.start = s'.tree.start) : s = s' := by
  rw [← starts_of_heads d source t v] at hheads
  exact inj_on_of_nodup_map (hheads.imp Nat.ne_of_lt) (mem_filter.mpr ⟨hs, hhead⟩)
    (mem_filter.mpr ⟨hs', hhead'⟩) hstart

section

variable (hshaped : t.Shaped) {c h : Tree}
include hshaped

lemma enclosed_cases (hc : c ∈ t.children) (henclosed : c.kind.isEnclosed) :
    t.kind.isTypeDeclaration ∧ c.role = some .body ∧ c.kind.isBody ∨
      c.kind = .classBody ∧ (t.kind = .objectCreationExpression ∨ t.kind = .enumConstant) ∨
      holdsMembers t.kind ∧ t.kind.shape.admits c.label := by
  have hnone : c.kind.isComment = false ∧ c.label.isPlain = false := by
    unfold Label.isPlain Tree.label
    revert henclosed
    cases c.kind <;> simp [isEnclosed, isComment, isBare, isApart]
  have hadmits : t.kind.shape.admits c.label := by
    refine (hshaped.fits.admitted c hc).resolve_left fun hremark => ?_
    rw [hremark.kind] at hnone
    cases hnone.1
  have hnot (h : c.kind.isEnclosed = false) : False := by
    rw [h] at henclosed
    cases henclosed
  by_cases htype : t.kind.isTypeDeclaration
  · obtain ⟨lacks, hshape⟩ := shape_typeDeclaration htype
    rw [hshape] at hadmits
    have hrole : c.label.inRole .body := by
      by_contra hrole
      rw [(typePart_of_admits hadmits).plain (by simpa using hrole)] at hnone
      cases hnone.2
    exact .inl ⟨htype, eq_of_beq hrole, (typePart_of_admits hadmits).body hrole⟩
  · by_cases hconstant : t.kind = .enumConstant
    · rw [hconstant] at hadmits
      refine .inr (.inl ⟨?_, .inr hconstant⟩)
      rcases (constantPart_of_admits hadmits).other with h | ⟨r, hr, hrole⟩
      · rw [hnone.2] at h
        cases h
      · rcases mem_pair.mp hr with rfl | rfl
        · have hargs : c.kind = .argumentList := (constantPart_of_admits hadmits).arguments hrole
          exact (hnot (hargs ▸ rfl)).elim
        · exact (constantPart_of_admits hadmits).body.mp hrole
    · by_cases hmembers : holdsMembers t.kind
      · exact .inr (.inr ⟨hmembers, hadmits⟩)
      · by_cases hprogram : t.kind = .program
        · rw [hprogram] at hadmits
          exact (hnot (by simpa [Tree.label] using ((Bool.and_eq_true _ _).mp hadmits).1)).elim
        · have hout : t.kind.isEnclosed = false := by
            revert hmembers hprogram hconstant
            cases t.kind <;> decide
          refine .inr (.inl ?_)
          by_contra hother
          exact hnot (isEnclosed_of_admits hadmits hout (by simpa using htype)
            fun hcreation hclass => hother ⟨hclass, .inl hcreation⟩)

lemma body_cases (hc : c ∈ t.children) (hbody : c.kind.isBody) :
    t.kind.isTypeDeclaration ∧ c.role = some .body ∨
      c.kind = .classBody ∧ (t.kind = .objectCreationExpression ∨ t.kind = .enumConstant) := by
  have hkinds : c.kind.isEnclosed ∧ isMember c.kind = false := by
    revert hbody
    cases c.kind <;> decide
  rcases enclosed_cases hshaped hc hkinds.1 with ⟨htype, hrole, _⟩ | hclass | ⟨hmembers, hadmits⟩
  · exact .inl ⟨htype, hrole⟩
  · exact .inr hclass
  · rw [show isMember c.kind from isMember_of_admits hmembers hadmits] at hkinds
    cases hkinds.2

lemma body_of_declarations (hc : c ∈ t.children) (hkind : c.kind = .enumBodyDeclarations) :
    t.kind.isBody := by
  rcases enclosed_cases hshaped hc (hkind ▸ rfl) with
    ⟨_, _, hbody⟩ | ⟨hclass, _⟩ | ⟨hmembers, hadmits⟩
  · rw [hkind] at hbody
    cases hbody
  · rw [hkind] at hclass
    cases hclass
  · rw [show c.label = (c.role, .enumBodyDeclarations) from Prod.ext rfl hkind] at hadmits
    revert hmembers hadmits
    cases t.kind <;> simp [holdsMembers, isBody, shape, Shape.body, isBare,
      isClassMember, isTypeDeclaration]

lemma members_of_holder (hkind : t.kind = .program) {b : Spot} (hb : b ∈ spots d source t v)
    (hbody : b.tree.kind.isBody) (hholder : holderIn (b.tree :: b.view.path) = some h) :
    bodyTrees b.tree ⊆ memberTrees h ∧ ∃ p ∈ spots d source t v, p.tree = h ∧ p.isHead := by
  rcases exists_parent hb with rfl | ⟨p, hp, c, hc, rfl⟩
  · rw [hkind] at hbody
    cases hbody
  rw [View.path_enter] at hholder
  rcases body_cases (shaped_of_mem_spots hshaped hp) hc hbody with ⟨htype, hrole⟩ | ⟨hclass, hout⟩
  · rw [holderIn_of_body hbody htype] at hholder
    obtain rfl : p.tree = h := some.inj hholder
    have hne : p.tree.kind ≠ .classBody := by
      intro hclass
      rw [hclass] at htype
      cases htype
    refine ⟨fun x hx => ?_, p, hp, rfl, by simp [isHead, isHeaded, htype]⟩
    rw [memberTrees, if_neg (by simpa using hne)]
    exact mem_flatMap.mpr ⟨c, mem_filter.mpr ⟨hc, by simp [hrole]⟩, hx⟩
  · have hself : holderIn (c :: p.tree :: p.view.path) = some c := by
      rcases hout with hout | hout <;> simp [holderIn, hclass, hout, isTypeDeclaration]
    rw [hself] at hholder
    obtain rfl : c = h := some.inj hholder
    refine ⟨fun x hx => ?_, _, hb, rfl, by simp [isHead, isHeaded, hclass]⟩
    rwa [memberTrees, if_pos (by simpa using hclass)]

lemma mem_memberTrees (hkind : t.kind = .program) (hv : v.path = []) (hs : s ∈ spots d source t v)
    (hmember : s.isMember) (hholder : holderIn s.view.path = some h) :
    s.tree ∈ memberTrees h ∧ ∃ p ∈ spots d source t v, p.tree = h ∧ p.isHead := by
  simp only [Spot.isMember, Bool.and_eq_true] at hmember
  rcases exists_parent hs with rfl | ⟨b, hb, c, hc, rfl⟩
  · simp [View.inBody, hv] at hmember
  rw [View.path_enter] at hholder
  have hbmembers : holdsMembers b.tree.kind := by
    simpa [View.inBody, View.path_enter] using hmember.2
  by_cases henum : b.tree.kind = .enumBodyDeclarations
  · -- the members of an enum stand one level deeper
    rcases exists_parent hb with rfl | ⟨b', hb', c', hc', rfl⟩
    · rw [hkind] at henum
      cases henum
    have hbody := body_of_declarations (shaped_of_mem_spots hshaped hb') hc' henum
    have hsame : holderIn (c' :: b'.tree :: b'.view.path) = holderIn (b'.tree :: b'.view.path) := by
      rw [holderIn, henum]
      rfl
    rw [View.path_enter, hsame] at hholder
    obtain ⟨hsub, hp⟩ := members_of_holder hshaped hkind hb' hbody hholder
    refine ⟨hsub (mem_flatMap.mpr ⟨c', hc', ?_⟩), hp⟩
    rw [if_pos (by simpa using henum)]
    exact hc
  · have hbody : b.tree.kind.isBody := by simpa [holdsMembers, henum] using hbmembers
    obtain ⟨hsub, hp⟩ := members_of_holder hshaped hkind hb hbody hholder
    refine ⟨hsub (mem_flatMap.mpr ⟨c, hc, ?_⟩), hp⟩
    have hne : c.kind ≠ .enumBodyDeclarations := by
      intro hkind
      rw [hkind] at hmember
      cases hmember.1
    rw [if_neg (by simpa using hne)]
    exact mem_singleton_self c

end

lemma package_of_mem (hs : s ∈ spots d source t v) :
    s.view.context.package = v.context.package := by
  refine holds_of_mem (P := fun _ w => w.context.package = v.context.package)
    (fun t w hw c _ => ?_) rfl hs
  unfold View.enter
  cases typeEntered? d source t c <;> exact hw

/-- The names of the classes around a type, from the inside to the outside. -/
def Spot.around (s : Spot) : List String :=
  if s.isAnonymous then s.view.frames.tail else s.view.frames

lemma not_isTypeDeclaration (hanonymous : s.isAnonymous) : ¬ s.tree.kind.isTypeDeclaration := by
  intro htype
  simp only [isAnonymous, Bool.and_eq_true, beq_iff_eq] at hanonymous
  rw [hanonymous.1] at htype
  cases htype

lemma head_of_entered {c : Tree} {name : String} {vars : List TypeVariable} (hshaped : t.Shaped)
    (hc : c ∈ t.children) (htype : typeEntered? d source t c = some (name, vars)) (v : View) :
    ∃ p ∈ ([⟨t, v⟩, ⟨c, v.enter d source t c⟩] : List Spot), p.isHead ∧
      d.nameOf? p.tree = some name ∧ p.around = v.frames := by
  have hframes := (enter_of_some htype v).2
  unfold typeEntered? at htype
  split at htype
  case isTrue hkind =>
    obtain ⟨_, hname, heq⟩ := map_eq_some_iff.mp (ite_none_right_eq_some.mp htype).2
    cases heq
    refine ⟨⟨t, v⟩, by simp, by simp [isHead, isHeaded, hkind], hname, ?_⟩
    exact if_neg fun hbody => not_isTypeDeclaration hbody hkind
  case isFalse =>
    obtain ⟨hout, htype⟩ := ite_none_right_eq_some.mp htype
    obtain ⟨_, hname, heq⟩ := map_eq_some_iff.mp htype
    cases heq
    simp only [Bool.or_eq_true, Bool.and_eq_true, beq_iff_eq] at hout
    have hclass : c.kind = .classBody := by
      rcases hout with ⟨_, hclass⟩ | ⟨hkind, hrole⟩
      · exact hclass
      · have hadmits := (hshaped.fits.admitted c hc).resolve_left fun hremark => by
          rw [hremark.role] at hrole
          cases hrole
        exact (constantPart_of_admits (hkind ▸ hadmits)).body.mp (beq_iff_eq.mpr hrole)
    have hanonymous : isAnonymous ⟨c, v.enter d source t c⟩ := by
      rcases hout with ⟨hkind, _⟩ | ⟨hkind, _⟩ <;>
        simp [isAnonymous, outer?, View.enter, hclass, hkind]
    refine ⟨⟨c, v.enter d source t c⟩, by simp, by simp [isHead, isHeaded, hclass], hname, ?_⟩
    rw [around, if_pos hanonymous, hframes, tail_cons]

lemma exists_frame (hshaped : t.Shaped) (hv : v.frames = []) (hs : s ∈ spots d source t v)
    {name : String} {names : List String} (hnames : name :: names <:+ s.view.frames) :
    ∃ p ∈ spots d source t v, p.isHead ∧ d.nameOf? p.tree = some name ∧ p.around = names := by
  refine (holds_of_mem (P := fun r w => (⟨r, w⟩ : Spot) ∈ spots d source t v ∧
    ∀ name names, name :: names <:+ w.frames → ∃ p ∈ spots d source t v,
      p.isHead ∧ d.nameOf? p.tree = some name ∧ p.around = names)
    (fun r w hw c hc => ?_) ⟨mem_spots_self t v, fun name names hframes => ?_⟩ hs).2 name names
      hnames
  · obtain ⟨hr, hw⟩ := hw
    have hchild : (⟨c, w.enter d source r c⟩ : Spot) ∈ spots d source t v :=
      mem_spots_of_children hr (mem_map_of_mem hc)
    refine ⟨hchild, fun name names hframes => ?_⟩
    cases htype : typeEntered? d source r c with
    | none =>
      rw [(enter_of_none htype w).2] at hframes
      exact hw name names hframes
    | some entered =>
      obtain ⟨p, hp, hhead, hname, haround⟩ :=
        head_of_entered (shaped_of_mem_spots hshaped hr) hc htype w
      rw [(enter_of_some htype w).2] at hframes
      rcases suffix_cons_iff.mp hframes with hframes | hframes
      · obtain ⟨rfl, rfl⟩ := List.cons.inj hframes
        exact ⟨p, by rcases mem_pair.mp hp with rfl | rfl <;> assumption, hhead, hname, haround⟩
      · exact hw name names hframes
  · rw [hv] at hframes
    cases suffix_nil.mp hframes

lemma mem_children_of_top (hshaped : t.Shaped) (hv : v.path = [])
    (hs : s ∈ spots d source t v) (htop : s.isTop) : s.tree ∈ t.children := by
  simp only [isTop, Bool.and_eq_true] at htop
  rcases exists_parent hs with rfl | ⟨p, hp, c, hc, rfl⟩
  · simp [outer?, hv] at htop
  have hprogram : p.tree.kind = .program := by simpa [outer?, View.enter] using htop.2
  rcases exists_parent hp with rfl | ⟨q, hq, c', hc', rfl⟩
  · exact hc
  · have hother : ¬ (c'.kind.isBody ∨ c'.kind = .classBody ∨ isMember c'.kind) := by
      rw [show c'.kind = .program from hprogram]
      decide
    refine absurd ?_ hother
    exact (enclosed_cases (shaped_of_mem_spots hshaped hq) hc' (hprogram ▸ rfl)).imp (·.2.2)
      (.imp And.left fun h => isMember_of_admits h.1 h.2)

lemma areDistinct_of_mem (h : hasDistinctNames source t) (hs : s ∈ spots d source t v)
    (hkind : s.tree.kind.isHeaded) : areDistinct source (memberTrees s.tree) := by
  have hself := of_allTrees ((Bool.and_eq_true _ _).mp h).2 hs
  simp only [Bool.and_eq_true, Bool.or_eq_true] at hself
  exact hself.2.resolve_left (by simp [hkind])

lemma nameText_regular (hshaped : t.Shaped) (h : hasPlainIdentifiers source t)
    (hs : s ∈ spots d source t v) (hkind : s.tree.kind.isTypeDeclaration) {simple : String}
    (hsimple : s.tree.nameText? source = some simple) :
    isIdentifier simple ∧ '$' ∉ simple.toList := by
  obtain ⟨c, hc, rfl⟩ := map_eq_some_iff.mp hsimple
  have hsshaped := shaped_of_mem_spots hshaped hs
  have hmem := Tree.mem_of_child? hc
  have hidentifier := kind_of_name hsshaped hkind hc
  refine ⟨isIdentifier_text (hsshaped.parts c hmem) hidentifier source, ?_⟩
  simpa [hidentifier] using of_allTrees h (mem_spots_of_children hs (List.mem_map_of_mem hmem))

end

section

variable {unit : Tree} {entries : List Entry} {e e' : Entry} {package simple : String}
variable {owner : String}

section

variable (h : Enrolls d source unit entries)
include h

lemma spot_of_mem (he : e ∈ entries) : e.spot ∈ spots d source unit (.ofUnit d) ∧ e.spot.isHead :=
  mem_filter.mp (h.spots.subset (List.mem_map_of_mem he))

lemma exists_entry_of_name {t : Tree} {name : String} (hname : d.nameOf? t = some name) :
    ∃ e ∈ entries, e.name = name ∧ e.spot.tree.start = t.start := by
  obtain ⟨before, after, hnames, _⟩ := lookup_eq_some_iff.mp hname
  have hmem : (t.start, name) ∈ d.names := by simp [hnames]
  rw [h.names, mem_reverse] at hmem
  obtain ⟨e, he, hkey⟩ := List.mem_map.mp hmem
  obtain ⟨hstart, hname⟩ := Prod.mk.inj hkey
  exact ⟨e, he, hname, hstart⟩

lemma exists_owner (hparse : parse? source = some unit) (he : e ∈ entries)
    (howner : e.naming.owner? = some owner) :
    ∃ e' ∈ entries, e'.name = owner ∧ e.spot.around = owner :: e'.spot.around := by
  obtain ⟨hs, hhead⟩ := spot_of_mem h he
  have hspot : e.spot.owner? = some owner := by
    have hsuits := (h.faithful e he).suits
    cases hnaming : e.naming with
    | top package simple =>
      rw [hnaming] at howner
      cases howner
    | member owner' simple =>
      rw [hnaming] at howner hsuits
      exact hsuits.2.1.1.trans howner
    | numbered counter number =>
      rw [hnaming] at howner hsuits
      cases counter with
      | anonymous owner' => exact hsuits.2.trans howner
      | inCode owner' simple => exact hsuits.2.1.trans howner
  obtain ⟨hhead?, hframes⟩ : e.spot.owner? = e.spot.around.head? ∧
      e.spot.around <:+ e.spot.view.frames := by
    unfold Spot.owner? Spot.around
    split
    · exact ⟨rfl, tail_suffix _⟩
    · exact ⟨rfl, suffix_rfl⟩
  obtain ⟨names, haround⟩ := head?_eq_some_iff.mp (hhead?.symm.trans hspot)
  rw [haround] at hframes
  obtain ⟨p, hp, hphead, hname, hparound⟩ := exists_frame (shaped_of_parse hparse) rfl hs hframes
  obtain ⟨e', he', hname', hstart⟩ := exists_entry_of_name h hname
  obtain ⟨hs', hhead'⟩ := spot_of_mem h he'
  have hsame := eq_of_start (placed_of_parse hparse).2 hs' hp hhead' hphead hstart
  exact ⟨e', he', hname', by rw [haround, hsame, hparound]⟩

lemma exists_of_mem_localNames {x : String × String} (hx : x ∈ d.localNames) :
    ∃ e ∈ entries, ∃ owner number, e.naming = .numbered (.inCode owner x.2) number ∧
      e.name = x.1 := by
  rw [h.locals] at hx
  obtain ⟨e, he, hlocal⟩ := mem_filterMap.mp ((putNames_keys [] _).1 hx)
  exact ⟨e, he, Naming.localName?_eq_some hlocal⟩

end

def front (package : String) : String := if package.isEmpty then "" else package ++ "."

lemma qualify_eq_front (package simple : String) :
    qualify package simple = front package ++ simple := by
  unfold qualify front
  split <;> simp

lemma name_of_top (h : Enrolls d source unit entries) (he : e ∈ entries)
    (hnaming : e.naming = .top package simple) : e.name = front d.package ++ simple := by
  have hsuits := (h.faithful e he).suits
  rw [hnaming] at hsuits
  have hpackage : d.package = package :=
    (package_of_mem (spot_of_mem h he).1).symm.trans hsuits.2.1.2
  rw [Entry.name, hnaming, Naming.text, qualify_eq_front, hpackage]

lemma length_of_owner (howner : e.naming.owner? = some owner) : owner.length < e.name.length := by
  have hone : "$".length = 1 := rfl
  rw [Entry.name, Naming.text_of_owner howner, String.length_append, String.length_append]
  omega

lemma Naming.Suits.cases {n : Naming} (h : n.Suits d source s) :
    (∃ owner number, n = .numbered (.anonymous owner) number) ∨
      s.tree.kind.isTypeDeclaration ∧ s.tree.nameText? source = some n.simple := by
  cases n with
  | top | member => exact .inr ⟨((Bool.and_eq_true _ _).mp h.1).1, h.2.2⟩
  | numbered counter =>
    cases counter with
    | anonymous owner => exact .inl ⟨owner, _, rfl⟩
    | inCode => exact .inr ⟨((Bool.and_eq_true _ _).mp h.1).1, h.2.2⟩

lemma calls_of_mem (h : Enrolls d source unit entries) (he : e ∈ entries) {P : String → Prop}
    (hP : e.spot.tree.kind.isTypeDeclaration →
      ∀ simple, e.spot.tree.nameText? source = some simple → P simple) : e.naming.Calls P := by
  rcases (h.faithful e he).suits.cases with ⟨owner, number, hnaming⟩ | ⟨htype, hsimple⟩
  · rw [hnaming]
    trivial
  · exact .of_simple (hP htype _ hsimple)

lemma isRegular_of_mem (hparse : parse? source = some unit)
    (hplain : hasPlainIdentifiers source unit)
    (h : Enrolls d source unit entries) (he : e ∈ entries) : e.naming.IsRegular :=
  calls_of_mem h he fun hkind _ hsimple =>
    nameText_regular (shaped_of_parse hparse) hplain (spot_of_mem h he).1 hkind hsimple

lemma dot_of_identifier {text : String} (h : isIdentifier text) : '.' ∉ text.toList := by
  obtain ⟨c, cs, htext, hstart, hparts⟩ := isIdentifier_iff.mp h
  rw [htext]
  intro hmem
  rcases mem_cons.mp hmem with rfl | hmem
  · exact absurd hstart (by decide)
  · exact absurd (hparts '.' hmem) (by decide)

lemma exists_tail (hparse : parse? source = some unit) (h : Enrolls d source unit entries)
    (he : e ∈ entries) : ∃ tail, '.' ∉ tail.toList ∧ e.name = front d.package ++ tail := by
  induction hlength : e.name.length using Nat.strongRecOn generalizing e with
  | ind length ih =>
    have hcalls : e.naming.Calls ('.' ∉ ·.toList) :=
      calls_of_mem h he fun hkind simple hsimple => by
      obtain ⟨_, hname, hidentifier⟩ := exists_nameText
        (shaped_of_mem_spots (shaped_of_parse hparse) (spot_of_mem h he).1) hkind source
      obtain rfl := some.inj (hname.symm.trans hsimple)
      exact dot_of_identifier hidentifier
    rcases e.naming.top_or_owned with ⟨package, simple, hnaming⟩ | ⟨owner, howner⟩
    · rw [hnaming] at hcalls
      exact ⟨simple, hcalls, name_of_top h he hnaming⟩
    · have hname : e.name = owner ++ "$" ++ (e.naming.digits ++ e.naming.simple) :=
        Naming.text_of_owner howner
      obtain ⟨e', he', rfl, -⟩ := exists_owner h hparse he howner
      obtain ⟨tail, hdot, htail⟩ := ih _ (hlength ▸ length_of_owner howner) he' rfl
      have hown := Naming.not_mem hcalls.simple_cases rfl
      refine ⟨tail ++ "$" ++ (e.naming.digits ++ e.naming.simple), ?_, ?_⟩
      · simp only [String.toList_append, mem_append] at hown ⊢
        simp [hdot, hown]
      · rw [hname, htail]
        simp only [String.append_assoc]

/-- A name in a package, and a context there. -/
structure InPackage (package name home : String) : Prop where
  name : ∃ simple, '.' ∉ simple.toList ∧ name = qualify package simple
  home : home = package

lemma inPackage_of_mem (hparse : parse? source = some unit) (h : Enrolls d source unit entries)
    {info : TypeInfo} (hinfo : info ∈ d.types) : InPackage d.package info.name info.package := by
  obtain ⟨e, he, rfl⟩ := List.mem_map.mp (h.types.mem_iff.mp hinfo)
  have hfaithful := h.faithful e he
  obtain ⟨tail, hdot, htail⟩ := exists_tail hparse h he
  refine ⟨⟨tail, hdot, ?_⟩, ?_⟩
  · rw [hfaithful.name, htail, qualify_eq_front]
  · rw [hfaithful.package]
    exact package_of_mem (spot_of_mem h he).1

lemma spot_of_number (h : Enrolls d source unit entries) (he : e ∈ entries) (he' : e' ∈ entries)
    {counter : Counter} {number : Nat} (hnaming : e.naming = .numbered counter number)
    (hnaming' : e'.naming = .numbered counter number) : e.spot = e'.spot := by
  have hnodup : (numbersOf counter entries).Nodup := by
    rw [h.numbers counter]
    exact nodup_range'
  have hnumber : e.naming.number? counter = some number := by simp [hnaming, Naming.number?]
  have hnumber' : e'.naming.number? counter = some number := by simp [hnaming', Naming.number?]
  by_contra hne
  have hne : e ≠ e' := fun h => hne (congrArg Entry.spot h)
  rcases pair_sublist he he' hne with hsub | hsub
  · have htwice : (numbersOf counter [e, e']).Nodup := hnodup.sublist (hsub.filterMap _)
    simp [numbersOf, hnumber, hnumber'] at htwice
  · have htwice : (numbersOf counter [e', e]).Nodup := hnodup.sublist (hsub.filterMap _)
    simp [numbersOf, hnumber, hnumber'] at htwice

section

variable (hparse : parse? source = some unit) (hdistinct : hasDistinctNames source unit)
  (h : Enrolls d source unit entries) (he : e ∈ entries)
include hparse hdistinct h he

lemma top_or_owned : (∃ package simple, e.naming = .top package simple ∧
      e.name = front d.package ++ simple ∧ '$' ∉ simple.toList) ∨
    ∃ owner tail, e.naming.owner? = some owner ∧ e.name = front d.package ++ tail ∧
      '$' ∈ tail.toList := by
  rcases e.naming.top_or_owned with ⟨package, simple, hnaming⟩ | ⟨owner, howner⟩
  · have hregular := isRegular_of_mem hparse (plain_of_distinct hdistinct) h he
    rw [hnaming] at hregular
    exact .inl ⟨package, simple, hnaming, name_of_top h he hnaming, hregular.2⟩
  · obtain ⟨e', he', rfl, -⟩ := exists_owner h hparse he howner
    obtain ⟨tail, -, htail⟩ := exists_tail hparse h he'
    refine .inr ⟨e'.name, tail ++ "$" ++ (e.naming.digits ++ e.naming.simple), howner, ?_, ?_⟩
    · rw [Entry.name, Naming.text_of_owner howner, htail]
      simp only [String.append_assoc]
    · simp

lemma spot_of_top (he' : e' ∈ entries) {package' : String}
    (hnaming : e.naming = .top package simple) (hnaming' : e'.naming = .top package' simple) :
    e.spot = e'.spot := by
  have hsuits := (h.faithful e he).suits
  have hsuits' := (h.faithful e' he').suits
  rw [hnaming] at hsuits
  rw [hnaming'] at hsuits'
  obtain ⟨hs, hhead⟩ := spot_of_mem h he
  obtain ⟨hs', hhead'⟩ := spot_of_mem h he'
  have hshaped := shaped_of_parse hparse
  have htype {s : Spot} (htop : s.isTop) : s.tree.kind.isTypeDeclaration :=
    ((Bool.and_eq_true _ _).mp htop).1
  refine eq_of_start (placed_of_parse hparse).2 hs hs' hhead hhead' (congrArg Tree.start ?_)
  exact eq_of_areDistinct ((Bool.and_eq_true _ _).mp hdistinct).1
    (mem_children_of_top hshaped rfl hs hsuits.1) (mem_children_of_top hshaped rfl hs' hsuits'.1)
    (htype hsuits.1) (htype hsuits'.1) (hsuits.2.2.trans hsuits'.2.2.symm)

lemma spot_of_member (he' : e' ∈ entries)
    (hnaming : e.naming = .member owner simple) (hnaming' : e'.naming = .member owner simple)
    (howner : ∀ e₁ ∈ entries, ∀ e₂ ∈ entries, e₁.name = owner → e₂.name = owner →
      e₁.spot = e₂.spot) : e.spot = e'.spot := by
  have hsuits := (h.faithful e he).suits
  have hsuits' := (h.faithful e' he').suits
  rw [hnaming] at hsuits
  rw [hnaming'] at hsuits'
  obtain ⟨hmember, ⟨-, hholder⟩, hsimple⟩ := hsuits
  obtain ⟨hmember', ⟨-, hholder'⟩, hsimple'⟩ := hsuits'
  obtain ⟨hs, hhead⟩ := spot_of_mem h he
  obtain ⟨hs', hhead'⟩ := spot_of_mem h he'
  have hheads := (placed_of_parse hparse).2
  have hshaped := shaped_of_parse hparse
  have hkind := kind_of_parse hparse
  obtain ⟨t, hpath, hname⟩ := bind_eq_some_iff.mp hholder
  obtain ⟨t', hpath', hname'⟩ := bind_eq_some_iff.mp hholder'
  obtain ⟨hmem, p, hp, rfl, hphead⟩ := mem_memberTrees hshaped hkind rfl hs hmember hpath
  obtain ⟨hmem', p', hp', rfl, hphead'⟩ := mem_memberTrees hshaped hkind rfl hs' hmember' hpath'
  -- both are members of the class that has the name of their owner
  have hstart : p.tree.start = p'.tree.start := by
    obtain ⟨e₁, he₁, hname₁, hstart₁⟩ := exists_entry_of_name h hname
    obtain ⟨e₂, he₂, hname₂, hstart₂⟩ := exists_entry_of_name h hname'
    rw [← hstart₁, ← hstart₂, howner e₁ he₁ e₂ he₂ hname₁ hname₂]
  obtain rfl : p = p' := eq_of_start hheads hp hp' hphead hphead' hstart
  have htype {s : Spot} (hmember : s.isMember) : s.tree.kind.isTypeDeclaration :=
    ((Bool.and_eq_true _ _).mp hmember).1
  refine eq_of_start hheads hs hs' hhead hhead' (congrArg Tree.start ?_)
  exact eq_of_areDistinct (areDistinct_of_mem hdistinct hp hphead) hmem hmem'
    (htype hmember) (htype hmember') (hsimple.trans hsimple'.symm)

lemma spot_of_name (he' : e' ∈ entries) (hname : e.name = e'.name) : e.spot = e'.spot := by
  induction hlength : e.name.length using Nat.strongRecOn generalizing e e' with
  | ind length ih =>
    have hcancel {x y : String} (hx : e.name = front d.package ++ x)
        (hy : e'.name = front d.package ++ y) : x = y := by
      rw [hx, hy] at hname
      have hlist := congrArg String.toList hname
      rw [toList_append, toList_append] at hlist
      exact toList_inj.mp (append_cancel_left hlist)
    rcases top_or_owned hparse hdistinct h he with
      ⟨package, simple, hnaming, hfront, hdollar⟩ | ⟨owner, tail, howner, hfront, hdollar⟩
    · rcases top_or_owned hparse hdistinct h he' with
        ⟨package', simple', hnaming', hfront', _⟩ | ⟨_, tail', _, hfront', hdollar'⟩
      · rw [← hcancel hfront hfront'] at hnaming'
        exact spot_of_top hparse hdistinct h he he' hnaming hnaming'
      · rw [hcancel hfront hfront'] at hdollar
        exact absurd hdollar' hdollar
    · rcases top_or_owned hparse hdistinct h he' with
        ⟨_, simple', _, hfront', hdollar'⟩ | ⟨owner', _, howner', _, _⟩
      · rw [hcancel hfront hfront'] at hdollar
        exact absurd hdollar hdollar'
      · have hregular {e : Entry} :=
          isRegular_of_mem (e := e) hparse (plain_of_distinct hdistinct) h
        have hsame := Naming.eq_of_text (hregular he) (hregular he') howner howner' hname
        cases hnaming : e.naming with
        | top package simple =>
          rw [hnaming] at howner
          cases howner
        | member owner₁ simple =>
          have hshorter := length_of_owner howner
          rw [hnaming] at howner hsame
          obtain rfl : owner₁ = owner := some.inj howner
          refine spot_of_member hparse hdistinct h he he' hnaming hsame.symm
            fun e₁ he₁ e₂ he₂ hname₁ hname₂ => ?_
          exact ih _ (by rw [hname₁, ← hlength]; exact hshorter) he₁ he₂ (hname₁.trans hname₂.symm)
            rfl
        | numbered counter number => exact spot_of_number h he he' hnaming (hsame ▸ hnaming)

end

/-- Whether a body belongs to a class that has no name of its own in the type `owner`. -/
def Spot.isAnonymousIn (owner : String) (s : Spot) : Bool :=
  s.isAnonymous && s.owner? == some owner

/-- Whether a local class called `simple` is declared in the type `owner`. -/
def Spot.isLocalIn (source : List Char) (owner simple : String) (s : Spot) : Bool :=
  s.isLocal && s.owner? == some owner && s.tree.nameText? source == some simple

lemma isAnonymousIn_iff (h : e.Faithful d source) (owner : String) :
    e.spot.isAnonymousIn owner ↔ ∃ number, e.naming = .numbered (.anonymous owner) number := by
  have hsuits := h.suits
  simp only [isAnonymousIn, Bool.and_eq_true, beq_iff_eq]
  constructor
  · rintro ⟨hanonymous, howner⟩
    rcases hsuits.cases with ⟨owner', number, hnaming⟩ | ⟨htype, -⟩
    · rw [hnaming] at hsuits ⊢
      exact ⟨number, by rw [some.inj (hsuits.2.symm.trans howner)]⟩
    · exact (not_isTypeDeclaration hanonymous htype).elim
  · rintro ⟨number, hnaming⟩
    rw [hnaming] at hsuits
    exact hsuits

lemma isLocal_iff (h : e.Faithful d source) :
    e.spot.isLocal ↔ ∃ owner simple number, e.naming = .numbered (.inCode owner simple) number := by
  have hsuits := h.suits
  constructor
  · intro hlocal
    obtain ⟨htype, hcode⟩ := (Bool.and_eq_true _ _).mp hlocal
    cases hnaming : e.naming with
    | top package simple' =>
      rw [hnaming] at hsuits
      have htop := ((Bool.and_eq_true _ _).mp hsuits.1).2
      obtain ⟨kind, houter, hprogram⟩ := (Option.any_eq_true _ _).mp htop
      obtain ⟨p, hp, rfl⟩ := map_eq_some_iff.mp houter
      simp [View.inCode, hp, beq_iff_eq.mp hprogram] at hcode
    | member owner' simple' =>
      rw [hnaming] at hsuits
      have hbody := ((Bool.and_eq_true _ _).mp hsuits.1).2
      obtain ⟨p, hp, hmembers⟩ := (Option.any_eq_true _ _).mp hbody
      simp [View.inCode, hp, hmembers] at hcode
    | numbered counter number =>
      rw [hnaming] at hsuits
      cases counter with
      | anonymous owner' => exact (not_isTypeDeclaration hsuits.1 htype).elim
      | inCode owner simple => exact ⟨owner, simple, number, rfl⟩
  · rintro ⟨owner, simple, number, hnaming⟩
    rw [hnaming] at hsuits
    exact hsuits.1

lemma isLocalIn_iff (h : e.Faithful d source) (owner simple : String) :
    e.spot.isLocalIn source owner simple ↔
      ∃ number, e.naming = .numbered (.inCode owner simple) number := by
  have hsuits := h.suits
  simp only [isLocalIn, Bool.and_eq_true, beq_iff_eq]
  constructor
  · rintro ⟨⟨hlocal, howner⟩, hsimple⟩
    obtain ⟨owner', simple', number, hnaming⟩ := (isLocal_iff h).mp hlocal
    rw [hnaming] at hsuits
    exact ⟨number, by rw [hnaming, some.inj (hsuits.2.1.symm.trans howner),
      some.inj (hsuits.2.2.symm.trans hsimple)]⟩
  · rintro ⟨number, hnaming⟩
    rw [hnaming] at hsuits
    exact ⟨⟨hsuits.1, hsuits.2.1⟩, hsuits.2.2⟩

lemma names_of_counter {κ : Counter} {p : Spot → Bool}
    (h : ∀ e ∈ entries, p e.spot ↔ ∃ number, e.naming = .numbered κ number) :
    (entries.filter fun e => p e.spot).map Entry.name =
      (numbersOf κ entries).map fun n => (Naming.numbered κ n).text := by
  induction entries with
  | nil => rfl
  | cons e entries ih =>
    have hrest := ih fun e he => h e (mem_cons_of_mem _ he)
    have hfirst := h e mem_cons_self
    rw [numbersOf, filterMap_cons, filter_cons]
    cases hp : p e.spot with
    | true =>
      obtain ⟨number, hnaming⟩ := hfirst.mp hp
      have hnumber : e.naming.number? κ = some number := by simp [hnaming, Naming.number?]
      rw [hnumber, if_pos rfl, map_cons, map_cons, hrest, Entry.name, hnaming]
      rfl
    | false =>
      have hnumber : e.naming.number? κ = none := by
        cases hnaming : e.naming with
        | numbered counter number =>
          refine if_neg fun hκ => ?_
          rw [hfirst.mpr ⟨number, by rw [hnaming, hκ]⟩] at hp
          cases hp
        | _ => rfl
      rw [hnumber, if_neg Bool.false_ne_true, hrest]
      rfl

lemma eq_filter_of_sublist {α : Type} {xs ys : List α} (hsub : xs.Sublist ys)
    (hnodup : ys.Nodup) {q : α → Bool} (hq : ∀ y ∈ ys, q y ↔ y ∈ xs) : xs = ys.filter q := by
  induction hsub with
  | slnil => rfl
  | @cons xs ys y hsub ih =>
    obtain ⟨hy, hnodup⟩ := nodup_cons.mp hnodup
    have hnot : ¬ q y := fun hqy => hy (hsub.subset ((hq y mem_cons_self).mp hqy))
    rw [filter_cons_of_neg hnot]
    exact ih hnodup fun z hz => hq z (mem_cons_of_mem _ hz)
  | @cons_cons xs ys y hsub ih =>
    obtain ⟨hy, hnodup⟩ := nodup_cons.mp hnodup
    rw [filter_cons_of_pos ((hq y mem_cons_self).mpr mem_cons_self)]
    refine congrArg _ (ih hnodup fun z hz => (hq z (mem_cons_of_mem _ hz)).trans ?_)
    have hne : z ≠ y := fun h => hy (h ▸ hz)
    simp [hne]

/-- The declarations and bodies of types that have names, in the order of the source. -/
def namedSpots (d : Declarations) (source : List Char) (unit : Tree) : List Spot :=
  (spots d source unit (.ofUnit d)).filter fun s => s.isHead && (d.nameOf? s.tree).isSome

def namesAt (d : Declarations) (ss : List Spot) : List String :=
  ss.filterMap fun s => d.nameOf? s.tree

section

variable (hparse : parse? source = some unit)
include hparse

lemma starts_of_parse : ((spots d source unit (.ofUnit d)).filter isHead).Pairwise
    fun s s' => s.tree.start < s'.tree.start := by
  have hheads := (placed_of_parse hparse).2
  rw [← starts_of_heads d source unit (.ofUnit d)] at hheads
  exact pairwise_map.mp hheads

lemma spots_of_enrolls (h : Enrolls d source unit entries) :
    namedSpots d source unit = entries.map Entry.spot := by
  have hheads := starts_of_parse (d := d) hparse
  have hnodup : ((spots d source unit (.ofUnit d)).filter isHead).Nodup :=
    hheads.imp fun hlt heq => (heq ▸ hlt).false
  have hknown : ∀ s ∈ (spots d source unit (.ofUnit d)).filter isHead,
      (d.nameOf? s.tree).isSome ↔ s ∈ entries.map Entry.spot := by
    intro s hs
    obtain ⟨hs, hhead⟩ := mem_filter.mp hs
    constructor
    · intro hname
      obtain ⟨name, hname⟩ := isSome_iff_exists.mp hname
      obtain ⟨e, he, _, hstart⟩ := exists_entry_of_name h hname
      obtain ⟨hspot, hspot'⟩ := spot_of_mem h he
      exact List.mem_map.mpr
        ⟨e, he, eq_of_start (placed_of_parse hparse).2 hspot hs hspot' hhead hstart⟩
    · intro hmem
      obtain ⟨e, he, rfl⟩ := List.mem_map.mp hmem
      rw [(h.faithful e he).known]
      rfl
  rw [eq_filter_of_sublist h.spots hnodup hknown, List.filter_filter, namedSpots]
  exact filter_congr fun s _ => Bool.and_comm _ _

lemma namesAt_of_enrolls (h : Enrolls d source unit entries) {κ : Counter} {p : Spot → Bool}
    (hp : ∀ e ∈ entries, p e.spot ↔ ∃ number, e.naming = .numbered κ number) :
    ∃ count, namesAt d ((namedSpots d source unit).filter p) =
      (List.range' 1 count).map fun n => (Naming.numbered κ n).text := by
  have hnames : namesAt d ((namedSpots d source unit).filter p) =
      (entries.filter fun e => p e.spot).map Entry.name := by
    rw [spots_of_enrolls hparse h, List.filter_map, namesAt, filterMap_map, ← filterMap_eq_map]
    refine filterMap_congr fun e he => ?_
    exact (h.faithful e (mem_filter.mp he).1).known
  exact ⟨_, by rw [hnames, names_of_counter hp, h.numbers κ]⟩

end

/-- The types of a unit have different names, with the numbers that are in them in the order of the
source. -/
structure WellNumbered (d : Declarations) (source : List Char) (unit : Tree) : Prop where
  starts : (namedSpots d source unit).Pairwise fun s s' => s.tree.start < s'.tree.start
  names : d.names.map Prod.snd = (namesAt d (namedSpots d source unit)).reverse
  distinct : (d.names.map Prod.snd).Nodup
  anonymous : ∀ owner, ∃ count,
    namesAt d ((namedSpots d source unit).filter (Spot.isAnonymousIn owner)) =
      (List.range' 1 count).map fun n => owner ++ "$" ++ toString n
  inCode : ∀ owner simple, ∃ count,
    namesAt d ((namedSpots d source unit).filter (Spot.isLocalIn source owner simple)) =
      (List.range' 1 count).map fun n => owner ++ "$" ++ toString n ++ simple
  complete : ∀ c ∈ unit.children, c.kind.isTypeDeclaration →
    ∀ s ∈ spots d source c ((View.ofUnit d).enter d source unit c), s.isDeclaration →
      s ∈ namedSpots d source unit

/-- If no identifier has a `$` and no two types at the top or members of one type have the same
name, the classes of a unit are all named differently. -/
theorem wellNumbered_of_parse (hparse : parse? source = some unit)
    (hdistinct : hasDistinctNames source unit) (origin : Origin) :
    WellNumbered (Declarations.ofUnit { source, origin, includeLocal := true } unit)
      source unit := by
  obtain ⟨entries, h⟩ :=
    exists_entries hparse { source, origin, includeLocal := true } rfl rfl
  generalize Declarations.ofUnit { source, origin, includeLocal := true } unit = d at h
  have hnames : d.names.map Prod.snd = (entries.map Entry.name).reverse := by
    rw [h.names, List.map_reverse, List.map_map]
    rfl
  have hspots := spots_of_enrolls hparse h
  have hstarts : (namedSpots d source unit).Pairwise fun s s' => s.tree.start < s'.tree.start := by
    rw [hspots]
    exact (starts_of_parse hparse).sublist h.spots
  refine ⟨hstarts, ?_, ?_, fun owner => ?_, fun owner simple => ?_, ?_⟩
  · rw [hnames, hspots, namesAt, List.filterMap_map, ← List.filterMap_eq_map]
    exact congrArg _ (List.filterMap_congr fun e he => (h.faithful e he).known.symm)
  · rw [hnames, List.nodup_reverse]
    rw [hspots, List.pairwise_map] at hstarts
    refine List.pairwise_map.mpr (hstarts.imp_of_mem fun he he' hlt hname => ?_)
    rw [spot_of_name hparse hdistinct h he he' hname] at hlt
    exact hlt.false
  · exact namesAt_of_enrolls hparse h fun e he => isAnonymousIn_iff (h.faithful e he) owner
  · exact namesAt_of_enrolls hparse h fun e he => isLocalIn_iff (h.faithful e he) owner simple
  · intro c hc htype s hs hdeclared
    rw [hspots]
    exact h.complete c hc htype s hs hdeclared

/-- Local classes of the same name in two blocks of one method, and a class without a name in the
member type `A$B`. -/
theorem wellNumbered_of_blocks :
    let source :=
      "class A { void m() { { class L {} } { class L {} } } class B { A b = new A() {}; } }".toList
    ∃ unit, parse? source = some unit ∧ hasDistinctNames source unit ∧
      WellNumbered (Declarations.ofUnit { source, origin := .target "A.java", includeLocal := true }
        unit) source unit := by
  intro source
  obtain ⟨unit, hunit, hdistinct⟩ :
      ∃ unit, parse? source = some unit ∧ hasDistinctNames source unit := by decide +kernel
  exact ⟨unit, hunit, hdistinct, wellNumbered_of_parse hunit hdistinct (.target "A.java")⟩

end

end Xref.Reference

