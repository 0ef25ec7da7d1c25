import Xref.Proofs.Declaration.Display
import Xref.Proofs.Reference.Numbering

/-!
# Binary names on display

Of the local classes around a class the innermost one has the longest binary name, which is replaced
first. Behind it no part of the name is a number with a simple name, as the last part of every
binary name of a local class is. So no other one occurs in what is left, nor did a longer one
before.
-/
open List

namespace Xref.Reference

open Declaration Java Syntax Text

/-- Whether a part of a name is a number with a simple name. -/
def isNumbered (part : List Char) : Bool :=
  let number := part.takeWhile Char.isDigit
  number != [] && number.length != part.length

abbrev joined (parts : List (List Char)) : List Char := parts.flatMap ('$' :: ·)

def ArePlain (parts : List (List Char)) : Prop :=
  ∀ part ∈ parts, '$' ∉ part ∧ isNumbered part = false

/-- A table of the local classes in a package, by their binary names. -/
def AreLocal (lead : List Char) (names : LocalNames) : Prop :=
  ∀ a ∈ names, '$' ∉ a.2.toList ∧ ∃ outer part, a.1.toList = lead ++ outer ++ '$' :: part ∧
    '$' ∉ part ∧ isNumbered part

section

variable {lead body : List Char} {parts : List (List Char)} {names : LocalNames}
  {a x : String × String} {name : String}

lemma exists_of_part {part last : List Char} (before behind : List Char) (hpart : '$' ∉ part)
    (hnumbered : isNumbered part) (hlast : '$' ∉ last) (hplain : isNumbered last = false)
    (heq : before ++ '$' :: (part ++ behind) = body ++ '$' :: last) :
    ∃ more, body = before ++ '$' :: (part ++ more) := by
  have hne (behind : List Char) : part ++ behind ≠ last := by
    rintro rfl
    simp only [isNumbered, Bool.and_eq_true, bne_iff_ne] at hnumbered
    rw [isNumbered, takeWhile_append, if_neg hnumbered.2] at hplain
    have hlength := (takeWhile_sublist Char.isDigit (l := part)).length_le
    simp [hnumbered.1] at hplain
    omega
  rcases append_eq_append_iff.mp heq with ⟨more, rfl, hrest⟩ | ⟨more, rfl, hrest⟩
  · cases more with
    | nil => exact absurd (cons.inj hrest).2 (hne behind)
    | cons c more =>
      obtain ⟨rfl, hinner⟩ : '$' = c ∧ part ++ behind = more ++ '$' :: last := cons.inj hrest
      obtain ⟨more, rfl⟩ := prefix_of_append (by simpa using hpart) ⟨behind, hinner⟩
      exact ⟨more, rfl⟩
  · cases more with
    | nil => exact absurd (cons.inj hrest).2.symm (hne behind)
    | cons c more => exact absurd (by rw [(cons.inj hrest).2]; simp) hlast

lemma AreLocal.infix_of_joined (h : AreLocal lead names) (ha : a ∈ names) (hplain : ArePlain parts)
    (hinside : a.1.toList <:+: body ++ joined parts) : a.1.toList <:+: body := by
  induction parts generalizing body with
  | nil => simpa using hinside
  | cons last parts ih =>
    obtain ⟨⟨hlast, hplain⟩, hparts⟩ := forall_mem_cons.mp hplain
    have hinside : a.1.toList <:+: (body ++ '$' :: last) ++ joined parts := by simpa using hinside
    obtain ⟨before, behind, heq⟩ := ih hparts hinside
    obtain ⟨-, outer, part, hkey, hpart, hnumbered⟩ := h a ha
    obtain ⟨more, hbody⟩ := exists_of_part (before ++ (lead ++ outer)) behind hpart
      hnumbered hlast hplain (by rw [← heq, hkey]; simp)
    exact ⟨before, more, by rw [hbody, hkey]; simp⟩

lemma AreLocal.absent (h : AreLocal lead names) (ha : a ∈ names) {simple : List Char}
    (hsimple : '$' ∉ simple) : ¬ a.1.toList <:+: lead ++ simple := by
  intro hinside
  obtain ⟨-, outer, part, hkey, -⟩ := h a ha
  have hcount := hinside.sublist.count_le '$'
  rw [hkey, append_assoc, count_append, count_append, count_append, count_cons_self,
    count_eq_zero.mpr hsimple] at hcount
  omega

/-- The innermost local class is shown by its simple name. -/
lemma AreLocal.display (h : AreLocal lead names) (hproper : names.Proper) (hx : x ∈ names)
    (hplain : ArePlain parts) (hname : name.toList = x.1.toList ++ joined parts) :
    names.display name = x.2 ++ String.ofList (joined parts) := by
  obtain ⟨longer, shorter, hsorted⟩ := append_of_mem (mem_mergeSort.mpr hx)
  have hsorted : names.longestFirst = longer ++ x :: shorter := hsorted
  have hmem (a : String × String) (ha : a ∈ longer ++ x :: shorter) : a ∈ names :=
    mem_mergeSort.mp (hsorted ▸ ha)
  have hlonger : longer.foldl (fun text a => replaceName a.1 a.2 text) name = name := by
    refine LocalNames.foldl_of_absent fun a ha hinside => ?_
    have hnodup : (names.longestFirst.map Prod.fst).Nodup :=
      ((mergeSort_perm _ _).map _).nodup_iff.mpr hproper.nodup
    have horder := (LocalNames.longestFirst_sorted names).and (pairwise_map.mp hnodup)
    rw [hsorted] at horder
    rw [hname] at hinside
    obtain ⟨hsize, hne⟩ := (pairwise_append.mp horder).2.2 a ha x mem_cons_self
    have ha := hmem a (mem_append_left _ ha)
    exact hne (eq_of_inside (h.infix_of_joined ha hplain hinside) hsize)
  have hrest {a : String × String} (ha : a ∈ names) :
      ¬ a.1.toList <:+: x.2.toList ++ joined parts := by
    intro hinside
    obtain ⟨-, outer, part, hkey, -⟩ := h a ha
    exact (h x hx).1 ((h.infix_of_joined ha hplain hinside).subset (by simp [hkey]))
  have hreplaced : replaceName x.1 x.2 name = x.2 ++ String.ofList (joined parts) := by
    have hcloses : opensName none && closesName (joined parts).head? := by cases parts <;> rfl
    have hnot : ¬ x.1.toList <:+: joined parts := fun hinside =>
      hrest hx (hinside.trans (suffix_append _ _).isInfix)
    rw [← String.toList_inj, toList_replaceName, hname, replaceAfter_key (hproper.ne_nil hx),
      if_pos hcloses, replaceAfter_of_absent hnot, String.toList_append, String.toList_ofList]
  change names.longestFirst.foldl (fun text a => replaceName a.1 a.2 text) name = _
  rw [hsorted, foldl_append, hlonger, foldl_cons, hreplaced]
  refine LocalNames.foldl_of_absent fun a ha => ?_
  rw [String.toList_append, String.toList_ofList]
  exact hrest (hmem a (mem_append_right _ (mem_cons_of_mem _ ha)))

end

/-- Whether a local class of the unit has this name. -/
def isLocalClass (d : Declarations) (source : List Char) (unit : Tree) (name : String) : Bool :=
  (namedSpots d source unit).any fun s => s.isLocal && d.nameOf? s.tree == some name

lemma isNumbered_iff {n : Naming} (h : n.IsRegular) : isNumbered (n.digits ++ n.simple).toList ↔
    ∃ owner simple number, n = .numbered (.inCode owner simple) number := by
  have hparts : isNumbered (n.digits ++ n.simple).toList ↔ n.digits ≠ "" ∧ n.simple ≠ "" := by
    simp only [isNumbered, h.takeWhile]
    simp
  rw [hparts]
  cases n with
  | numbered counter number =>
    cases counter with
    | anonymous owner => simp [Naming.simple]
    | inCode owner simple =>
      exact ⟨fun _ => ⟨owner, simple, number, rfl⟩,
        fun _ => ⟨toString_ne_empty number, ne_empty_of_identifier h.1⟩⟩
  | _ => simp [Naming.digits]

section

variable {d : Declarations} {source : List Char} {unit : Tree} {entries : List Entry} {e : Entry}
  (hparse : parse? source = some unit) (h : Enrolls d source unit entries)
include hparse h

variable (hplain : hasPlainIdentifiers source unit)
include hplain

/-- A name is that of the innermost local class, or of a class at the top, with parts behind it. -/
lemma exists_parts (he : e ∈ entries) : ∃ body parts, ArePlain parts ∧
    e.name.toList = body ++ joined parts ∧
      match (e.name :: e.spot.around).find? (isLocalClass d source unit) with
      | none => ∃ simple, '$' ∉ simple ∧ body = (front d.package).toList ++ simple
      | some binary => body = binary.toList := by
  induction hlength : e.name.length using Nat.strongRecOn generalizing e with
  | ind length ih =>
    have hregular := isRegular_of_mem hparse hplain h he
    have hfaithful := h.faithful e he
    cases hlocal : isLocalClass d source unit e.name with
    | true =>
      rw [find?_cons_of_pos hlocal]
      exact ⟨e.name.toList, [], forall_mem_nil _, by simp, rfl⟩
    | false =>
      rw [find?_cons_of_neg (by simp [hlocal])]
      rcases e.naming.top_or_owned with ⟨package, simple, hnaming⟩ | ⟨owner, howner⟩
      · have hsuits := hfaithful.suits
        rw [hnaming] at hregular hsuits
        have haround : e.spot.around = [] := by simp [Spot.around, hsuits.2.1.1]
        rw [haround]
        refine ⟨e.name.toList, [], forall_mem_nil _, by simp, simple.toList, hregular.2, ?_⟩
        rw [name_of_top h he hnaming, String.toList_append]
      · obtain ⟨e', he', rfl, haround⟩ := exists_owner h hparse he howner
        obtain ⟨body, parts, hparts, hname, hbody⟩ :=
          ih _ (hlength ▸ length_of_owner howner) he' rfl
        have hown : isNumbered (e.naming.digits ++ e.naming.simple).toList = false := by
          rw [Bool.eq_false_iff, Ne, isNumbered_iff hregular]
          intro hnaming
          rw [isLocalClass, spots_of_enrolls hparse h, any_map, any_eq_false] at hlocal
          exact hlocal e he (by simp [(isLocal_iff hfaithful).mpr hnaming, hfaithful.known])
        rw [haround]
        refine ⟨body, parts ++ [(e.naming.digits ++ e.naming.simple).toList],
          forall_mem_append.mpr ⟨hparts, forall_mem_singleton.mpr ⟨hregular.dollar, hown⟩⟩, ?_,
          hbody⟩
        rw [Entry.name, Naming.text_of_owner howner, String.toList_append, String.toList_append,
          hname]
        simp

lemma areLocal_localNames : AreLocal (front d.package).toList d.localNames := by
  intro x hx
  obtain ⟨e, he, owner, number, hnaming, hname⟩ := exists_of_mem_localNames h hx
  have hregular := isRegular_of_mem hparse hplain h he
  have hnumbered := (isNumbered_iff hregular).mpr ⟨owner, x.2, number, hnaming⟩
  have howner : e.naming.owner? = some owner := by rw [hnaming]; rfl
  obtain ⟨e', he', rfl, -⟩ := exists_owner h hparse he howner
  obtain ⟨tail, -, htail⟩ := exists_tail hparse h he'
  have hdollar := hregular.dollar
  refine ⟨?_, tail.toList, _, ?_, hdollar, hnumbered⟩
  · rw [hnaming] at hregular
    exact hregular.2
  · rw [← hname, Entry.name, Naming.text_of_owner howner, htail]
    simp

lemma mem_localNames (he : e ∈ entries) {owner simple : String} {number : Nat}
    (hnaming : e.naming = .numbered (.inCode owner simple) number) :
    (e.name, simple) ∈ d.localNames := by
  have hlocal : e.naming.localName? = some (e.name, simple) := by rw [Entry.name, hnaming]; rfl
  have hkey : e.name ∈ d.localNames.map Prod.fst := by
    rw [h.locals]
    have hmem : (e.name, simple) ∈ localNamesOf entries := mem_filterMap.mpr ⟨e, he, hlocal⟩
    exact (putNames_keys [] _).2 (mem_map_of_mem hmem)
  obtain ⟨y, hy, hsame⟩ := mem_map.mp hkey
  obtain ⟨e', he', owner', number', hnaming', hname'⟩ := exists_of_mem_localNames h hy
  have heq := Naming.eq_of_text (isRegular_of_mem hparse hplain h he)
    (isRegular_of_mem hparse hplain h he') (congrArg Naming.owner? hnaming)
    (congrArg Naming.owner? hnaming') (hsame.symm.trans hname'.symm)
  rw [hnaming, hnaming'] at heq
  cases heq
  rw [← hsame]
  exact hy

end

/-- Of a type that is declared, the innermost local class that is around it or is it is shown by its
simple name, and what follows is kept. Where no binary name of a local class occurs, nothing
changes. -/
theorem display_of_declared {source : List Char} {unit : Tree} (hparse : parse? source = some unit)
    (hplain : hasPlainIdentifiers source unit) (origin : Origin) :
    let d := Declarations.ofUnit { source, origin, includeLocal := true } unit
    (∀ x ∈ d.names, ∃ s ∈ namedSpots d source unit, s.tree.start = x.1 ∧
      d.nameOf? s.tree = some x.2 ∧
      let found := (x.2 :: s.around).find? (isLocalClass d source unit)
      (found = none → d.display x.2 = x.2) ∧
        ∀ binary, found = some binary → ∀ c ∈ namedSpots d source unit, c.isLocal →
          d.nameOf? c.tree = some binary → ∃ simple rest, c.tree.nameText? source = some simple ∧
            x.2 = binary ++ rest ∧ d.display x.2 = simple ++ rest) ∧
    ∀ text, (∀ c ∈ namedSpots d source unit, c.isLocal → ∀ name, d.nameOf? c.tree = some name →
      ¬ name.toList <:+: text.toList) → d.display text = text := by
  intro d
  obtain ⟨entries, h⟩ : ∃ entries, Enrolls d source unit entries :=
    exists_entries hparse { source, origin, includeLocal := true } rfl rfl
  have hlocal := areLocal_localNames hparse h hplain
  have hproper : d.localNames.Proper :=
    proper_ofUnit ((placed_of_parse hparse).1.twin source .outside)
  rw [spots_of_enrolls hparse h]
  constructor
  · rintro ⟨start, name⟩ hx
    rw [h.names, mem_reverse] at hx
    obtain ⟨e, he, hkey⟩ := mem_map.mp hx
    obtain ⟨rfl, rfl⟩ := Prod.mk.inj hkey
    obtain ⟨body, parts, hparts, hsplit, hbody⟩ := exists_parts hparse h hplain he
    refine ⟨e.spot, mem_map_of_mem he, rfl, (h.faithful e he).known, fun hnone => ?_,
      fun binary hsome c hc hclass hname => ?_⟩
    · rw [hnone] at hbody
      obtain ⟨simple, hdollar, rfl⟩ := hbody
      refine LocalNames.foldl_of_absent fun a ha hinside => ?_
      have ha := mem_mergeSort.mp ha
      rw [hsplit] at hinside
      exact hlocal.absent ha hdollar (hlocal.infix_of_joined ha hparts hinside)
    · obtain ⟨e', he', rfl⟩ := mem_map.mp hc
      have hfaithful := h.faithful e' he'
      obtain ⟨owner, simple, number, hnaming⟩ := (isLocal_iff hfaithful).mp hclass
      have hsuits := hfaithful.suits
      rw [hnaming] at hsuits
      obtain rfl : e'.name = binary := Option.some.inj (hfaithful.known.symm.trans hname)
      rw [hsome] at hbody
      obtain rfl := hbody
      refine ⟨simple, String.ofList (joined parts), hsuits.2.2, ?_,
        hlocal.display hproper (mem_localNames hparse h hplain he' hnaming) hparts hsplit⟩
      rw [← String.toList_inj, hsplit, String.toList_append, String.toList_ofList]
  · intro text htext
    refine LocalNames.foldl_of_absent fun a ha => ?_
    obtain ⟨e, he, owner, number, hnaming, hname⟩ :=
      exists_of_mem_localNames h (mem_mergeSort.mp ha)
    have hfaithful := h.faithful e he
    exact htext e.spot (mem_map_of_mem he) ((isLocal_iff hfaithful).mpr ⟨_, _, _, hnaming⟩) a.1
      (hname ▸ hfaithful.known)

/-- The member class of a local class. -/
theorem display_of_local_member :
    let source := "class A { void m() { class L { class B {} } } }".toList
    ∃ unit, parse? source = some unit ∧ hasPlainIdentifiers source unit ∧
      let d := declarationsOf "A.java" source unit
      (31, "A$1L$B") ∈ d.names ∧ d.display "A$1L$B" = "L$B" ∧
        ∃ s ∈ namedSpots d source unit, s.tree.start = 31 ∧ d.nameOf? s.tree = some "A$1L$B" := by
  intro source
  obtain ⟨unit, hunit, hplain, hname, hdisplay⟩ :
      ∃ unit, parse? source = some unit ∧ hasPlainIdentifiers source unit ∧
      let d := declarationsOf "A.java" source unit
      (31, "A$1L$B") ∈ d.names ∧ d.display "A$1L$B" = "L$B" := by decide +kernel
  obtain ⟨s, hs, hstart, hcalled, -⟩ :=
    (display_of_declared hunit hplain (.target "A.java")).1 _ hname
  exact ⟨unit, hunit, hplain, hname, hdisplay, s, hs, hstart, hcalled⟩

end Xref.Reference
