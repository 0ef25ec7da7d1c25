import Mathlib.Data.List.Basic
import Xref.Declaration.LocalName

/-!
# What display keeps

Binary names are replaced by simple names wherever they occur in a name. A name does not become
empty by that, and it keeps the characters that no binary name has and an end that no binary name
can reach into. The name of a method in front of its parameters is kept as well.
-/
open List

namespace Xref.Declaration

section

variable {key simple text rest : List Char} {before : Option Char} {z : Char}

/-- A text behind the character `before` in which the occurrences of `key` are replaced. -/
abbrev replaceAfter (key simple : List Char) (before : Option Char) (text : List Char) :
    List Char :=
  replaceNameFrom key simple before 0 false text

lemma toList_replaceName (key simple text : String) : (replaceName key simple text).toList =
    replaceAfter key.toList simple.toList none text.toList :=
  String.toList_ofList

lemma replaceNameFrom_append (before : Option Char) (copied : Bool) (occurrence rest : List Char) :
    replaceNameFrom key simple before occurrence.length copied (occurrence ++ rest) =
      (if copied then occurrence else []) ++
        replaceAfter key simple (occurrence.getLast?.or before) rest := by
  induction occurrence generalizing before with
  | nil => cases rest <;> simp [replaceNameFrom]
  | cons c occurrence ih =>
    have hlast : (c :: occurrence).getLast?.or before = occurrence.getLast?.or (some c) := by
      rw [getLast?_cons]
      cases occurrence.getLast? <;> rfl
    rw [length_cons, cons_append, replaceNameFrom, ih, hlast]
    split <;> rfl

lemma replaceAfter_key (hne : key ≠ []) (before : Option Char) (rest : List Char) :
    replaceAfter key simple before (key ++ rest) =
      (if opensName before && closesName rest.head? then simple else key) ++
        replaceAfter key simple key.getLast? rest := by
  obtain ⟨c, cs, rfl⟩ := exists_cons_of_ne_nil hne
  have hlast : cs.getLast?.or (some c) = (c :: cs).getLast? := by
    rw [getLast?_cons]
    cases cs.getLast? <;> rfl
  have hbegins : (c :: cs).isPrefixOf (c :: (cs ++ rest)) := by simp
  rw [cons_append, replaceAfter, replaceNameFrom, if_pos hbegins, ← cons_append, drop_left,
    length_cons, Nat.add_sub_cancel]
  dsimp only
  rw [replaceNameFrom_append, hlast]
  cases opensName before && closesName rest.head? <;> rfl

lemma replaceAfter_cons {c : Char} {cs : List Char} (h : ¬ key <+: c :: cs) :
    replaceAfter key simple before (c :: cs) = c :: replaceAfter key simple (some c) cs := by
  rw [replaceAfter, replaceNameFrom, if_neg (mt List.isPrefixOf_iff_prefix.mp h)]

/-- Every text is made of occurrences and of characters at which none begins. -/
lemma occurrence_induction (hne : key ≠ []) {P : List Char → Prop} (nil : P [])
    (copy : ∀ c cs, ¬ key <+: c :: cs → P cs → P (c :: cs))
    (occurrence : ∀ rest, P rest → P (key ++ rest)) (text : List Char) : P text := by
  induction hlength : text.length using Nat.strongRecOn generalizing text with
  | ind length ih =>
    by_cases hbegins : key <+: text
    · obtain ⟨rest, rfl⟩ := hbegins
      have hpos := length_pos_of_ne_nil hne
      rw [length_append] at hlength
      exact occurrence rest (ih _ (by omega) rest rfl)
    · cases text with
      | nil => exact nil
      | cons c cs => exact copy c cs hbegins (ih _ (hlength ▸ Nat.lt_succ_self _) cs rfl)

lemma prefix_of_append {xs ys : List Char} (hys : ∀ c, ys.head? = some c → c ∉ key)
    (h : key <+: xs ++ ys) : key <+: xs := by
  rcases List.prefix_or_prefix_of_prefix h (prefix_append xs _) with hshort | ⟨more, rfl⟩
  · exact hshort
  · rw [prefix_append_right_inj] at h
    cases more with
    | nil => simp
    | cons c more =>
      obtain ⟨rest, rfl⟩ := h
      exact absurd (by simp) (hys c rfl)

lemma replaceAfter_ne_nil (hsimple : simple ≠ []) (before : Option Char) (h : text ≠ []) :
    replaceAfter key simple before text ≠ [] := by
  cases text with
  | nil => exact absurd rfl h
  | cons c cs =>
    rw [replaceAfter, replaceNameFrom]
    dsimp only
    split
    · split
      · simp [hsimple]
      · exact cons_ne_nil _ _
    · exact cons_ne_nil _ _

lemma mem_replaceAfter {x : Char} (hne : key ≠ []) (hx : x ∉ key) (before : Option Char)
    (h : x ∈ text) : x ∈ replaceAfter key simple before text := by
  induction text using occurrence_induction hne generalizing before with
  | nil => cases h
  | copy c cs hnot ih =>
    rw [replaceAfter_cons hnot]
    rcases mem_cons.mp h with rfl | h
    · exact mem_cons_self
    · exact mem_cons_of_mem _ (ih _ h)
  | occurrence rest ih =>
    rw [replaceAfter_key hne]
    exact mem_append_right _ (ih _ ((mem_append.mp h).resolve_left hx))

lemma replaceAfter_of_absent (h : ¬ key <:+: text) (before : Option Char) :
    replaceAfter key simple before text = text := by
  induction text generalizing before with
  | nil => rfl
  | cons c cs ih =>
    rw [replaceAfter_cons fun hstart => h hstart.isInfix,
      ih fun hinside => h (hinside.trans (suffix_cons c cs).isInfix)]

lemma suffix_replaceAfter {tail : List Char} (hlast : key.getLast? = some z) (hz : z ∉ tail)
    (before : Option Char) (text : List Char) :
    tail <:+ replaceAfter key simple before (text ++ tail) := by
  have hne : key ≠ [] := by
    rintro rfl
    cases hlast
  induction hwhole : text ++ tail using occurrence_induction hne generalizing before text with
  | nil => exact (append_eq_nil_iff.mp hwhole).2 ▸ nil_suffix
  | copy c cs hnot ih =>
    cases text with
    | nil =>
      rw [← hwhole, nil_append]
      have hnot : ¬ key <:+: tail := fun h => hz (h.subset (mem_of_getLast? hlast))
      exact ⟨[], (replaceAfter_of_absent hnot before).symm⟩
    | cons x text =>
      rw [replaceAfter_cons hnot]
      exact (ih _ text (List.cons.inj hwhole).2).trans (suffix_cons _ _)
  | occurrence rest ih =>
    obtain ⟨text', hrest⟩ : ∃ text', text' ++ tail = rest := by
      rcases append_eq_append_iff.mp hwhole with ⟨more, hmore, htail⟩ | ⟨text', _, hrest⟩
      · -- if the occurrence went further, its last character would be in the end
        obtain rfl : more = [] := by
          by_contra hne
          rw [hmore, getLast?_append_of_ne_nil text hne] at hlast
          exact hz (htail ▸ mem_append_left _ (mem_of_getLast? hlast))
        exact ⟨[], htail⟩
      · exact ⟨text', hrest.symm⟩
    rw [replaceAfter_key hne]
    exact (ih _ text' hrest).trans (suffix_append _ _)

/-- The text in front is replaced by itself where every occurrence that begins in it ends before its
last character. -/
lemma replaceAfter_front {front : List Char} (hne : key ≠ [])
    (hends : ∀ xs, xs <:+ front ++ [z] → key <+: xs ++ rest → key.length < xs.length)
    (before : Option Char) :
    ∃ front', replaceAfter key simple before (front ++ z :: rest) =
      front' ++ z :: replaceAfter key simple (some z) rest := by
  induction hwhole : front ++ z :: rest using occurrence_induction hne
    generalizing before front with
  | nil => simp at hwhole
  | copy c cs hnot ih =>
    rw [replaceAfter_cons hnot]
    cases front with
    | nil =>
      obtain ⟨rfl, rfl⟩ := List.cons.inj hwhole
      exact ⟨[], rfl⟩
    | cons x front =>
      obtain ⟨front', hfront⟩ := ih (fun xs hxs => hends xs (hxs.trans (suffix_cons x _))) (some c)
        (List.cons.inj hwhole).2
      exact ⟨c :: front', by rw [hfront, cons_append]⟩
  | occurrence tail ih =>
    have hbegins : key <+: front ++ z :: rest := ⟨tail, hwhole.symm⟩
    have hlength := hends _ (suffix_refl _) (by simpa using hbegins)
    rw [length_append, length_singleton] at hlength
    obtain ⟨front, rfl⟩ :=
      prefix_of_prefix_length_le hbegins (prefix_append front _) (Nat.le_of_lt_succ hlength)
    rw [append_assoc] at hends hwhole
    obtain ⟨front', hfront⟩ := ih (fun xs hxs => hends xs (hxs.trans (suffix_append _ _)))
      key.getLast? (append_cancel_left hwhole)
    rw [replaceAfter_key hne, hfront, ← append_assoc]
    exact ⟨_, rfl⟩

lemma replaceAfter_kept {kept : List Char}
    (hfree : ∀ xs, xs ≠ [] → xs <:+ kept → ¬ key <+: xs ++ rest) (before : Option Char) :
    ∃ before', replaceAfter key simple before (kept ++ rest) =
      kept ++ replaceAfter key simple before' rest := by
  induction kept generalizing before with
  | nil => exact ⟨before, rfl⟩
  | cons c cs ih =>
    obtain ⟨before', hrest⟩ := ih (fun xs hne hxs =>
      hfree xs hne (hxs.trans (suffix_cons c cs))) (some c)
    have hnot : ¬ key <+: c :: (cs ++ rest) := hfree (c :: cs) (cons_ne_nil _ _) (suffix_refl _)
    exact ⟨before', by rw [cons_append, replaceAfter_cons hnot, hrest, cons_append]⟩

/-- The name of a method, with a type in front of it or not, and parameters behind it. -/
def IsCallOf (method text : List Char) : Prop :=
  ∃ front params, text = front ++ method ++ '(' :: params ∧ (front = [] ∨ ['.'] <:+ front) ∧
    [')'] <:+ params

/-- A binary name whose last segment has a `$` in it, and no bracket. -/
structure IsBinaryKey (key : List Char) : Prop where
  segment : ∃ outer last, key = outer ++ '$' :: last ∧ '.' ∉ last
  opening : '(' ∉ key
  closing : ∃ z, key.getLast? = some z ∧ z ∉ [')']

/-- No occurrence ends in the name of a method and begins before it. -/
lemma IsBinaryKey.length_lt (hkey : IsBinaryKey key) {method front xs params : List Char}
    (hdollar : '$' ∉ method) (hxs : xs <:+ front ++ ['.'])
    (h : key <+: xs ++ (method ++ '(' :: params)) : key.length < xs.length := by
  obtain ⟨outer, last, hsegment, hlast⟩ := hkey.segment
  rw [← append_assoc] at h
  have hbefore := prefix_of_append (by simpa using hkey.opening) h
  by_contra hlong
  obtain ⟨part, rfl⟩ := prefix_of_prefix_length_le (prefix_append xs method) hbefore
    (Nat.not_lt.mp hlong)
  have hpart := (prefix_append_right_inj xs).mp hbefore
  rcases suffix_concat_iff.mp hxs with rfl | ⟨ys, rfl, _⟩
  · exact hdollar (hpart.subset (by rw [← nil_append part, hsegment]; simp))
  · -- the last `$` stands in the method, or there is a dot behind it
    rw [append_assoc, singleton_append] at hsegment
    rcases append_eq_append_iff.mp hsegment with ⟨more, _, hmore⟩ | ⟨more, _, hmore⟩
    · cases more with
      | nil => cases hmore
      | cons c more =>
        have hmem : '$' ∈ part := by rw [(List.cons.inj hmore).2]; simp
        exact hdollar (hpart.subset hmem)
    · cases more with
      | nil => cases hmore
      | cons c more =>
        refine hlast ?_
        rw [(List.cons.inj hmore).2]
        simp

lemma isCallOf_replaceAfter (hkey : IsBinaryKey key) {method : List Char}
    (hdollar : '$' ∉ method) (h : IsCallOf method text) :
    IsCallOf method (replaceAfter key simple none text) := by
  obtain ⟨z, hz, hclosing⟩ := hkey.closing
  obtain ⟨front, _, rfl, hfront, params, rfl⟩ := h
  -- what begins in the name of the method would have to lie in it
  have hfree : ∀ xs, xs ≠ [] → xs <:+ method ++ ['('] → ¬ key <+: xs ++ (params ++ [')']) := by
    intro xs hne hxs hprefix
    obtain ⟨ys, rfl, hys⟩ := (suffix_concat_iff.mp hxs).resolve_left hne
    rw [append_assoc] at hprefix
    have hinside := prefix_of_append (by simpa using hkey.opening) hprefix
    obtain ⟨outer, last, rfl, _⟩ := hkey.segment
    exact hdollar (hys.subset (hinside.subset (by simp)))
  have hkept (before : Option Char) : ∃ params', [')'] <:+ params' ∧
      replaceAfter key simple before (method ++ '(' :: (params ++ [')'])) =
        method ++ '(' :: params' := by
    obtain ⟨before', hrest⟩ : ∃ before', replaceAfter key simple before
        (method ++ ['('] ++ (params ++ [')'])) = method ++ ['('] ++
          replaceAfter key simple before' (params ++ [')']) :=
      replaceAfter_kept hfree before
    exact ⟨replaceAfter key simple before' (params ++ [')']),
      suffix_replaceAfter hz hclosing before' params, by simpa using hrest⟩
  rcases hfront with rfl | ⟨front, rfl⟩
  · obtain ⟨params', hparams, hreplaced⟩ := hkept none
    exact ⟨[], params', hreplaced, .inl rfl, hparams⟩
  · have hne : key ≠ [] := by
      obtain ⟨outer, last, rfl, _⟩ := hkey.segment
      simp
    obtain ⟨front', hreplaced⟩ : ∃ front', replaceAfter key simple none
        (front ++ '.' :: (method ++ '(' :: (params ++ [')']))) = front' ++ '.' ::
          replaceAfter key simple (some '.') (method ++ '(' :: (params ++ [')'])) :=
      replaceAfter_front hne (fun xs hxs => hkey.length_lt hdollar hxs) none
    obtain ⟨params', hparams, hrest⟩ := hkept (some '.')
    refine ⟨front' ++ ['.'], params', ?_, .inr ⟨front', rfl⟩, hparams⟩
    rw [hrest] at hreplaced
    simpa using hreplaced

end

namespace LocalNames

variable {names : LocalNames} {name : String}

lemma display_induction {P : String → Prop}
    (hstep : ∀ a ∈ names, ∀ text, P text → P (replaceName a.1 a.2 text)) (h : P name) :
    P (names.display name) :=
  List.foldlRecOn _ _ h fun text htext a ha => hstep a (mem_mergeSort.mp ha) text htext

lemma foldl_of_absent {l : LocalNames} (h : ∀ a ∈ l, ¬ a.1.toList <:+: name.toList) :
    l.foldl (fun text a => replaceName a.1 a.2 text) name = name := by
  refine List.foldlRecOn (motive := (· = name)) _ _ rfl fun text htext a ha => ?_
  rw [htext, ← String.toList_inj, toList_replaceName, replaceAfter_of_absent (h a ha)]

lemma display_ne_empty (hnames : ∀ a ∈ names, a.2 ≠ "") (h : name ≠ "") :
    names.display name ≠ "" := by
  refine display_induction (P := (· ≠ "")) (fun a ha text htext => ?_) h
  rw [replaceName, Ne, String.ofList_eq_empty_iff]
  exact replaceAfter_ne_nil (by simpa using hnames a ha) _ (by simpa using htext)

lemma mem_display {x : Char} (hnames : ∀ a ∈ names, a.1 ≠ "" ∧ x ∉ a.1.toList)
    (h : x ∈ name.toList) : x ∈ (names.display name).toList := by
  refine display_induction (P := fun text => x ∈ text.toList) (fun a ha text htext => ?_) h
  obtain ⟨hne, hx⟩ := hnames a ha
  rw [toList_replaceName]
  exact mem_replaceAfter (by simpa using hne) hx _ htext

lemma suffix_display {tail : List Char}
    (hnames : ∀ a ∈ names, ∃ z, a.1.toList.getLast? = some z ∧ z ∉ tail)
    (h : tail <:+ name.toList) : tail <:+ (names.display name).toList := by
  refine display_induction (P := fun text => tail <:+ text.toList) (fun a ha text htext => ?_) h
  obtain ⟨z, hlast, hz⟩ := hnames a ha
  obtain ⟨front, hfront⟩ := htext
  rw [toList_replaceName, ← hfront]
  exact suffix_replaceAfter hlast hz none front

lemma isCallOf_display {method : List Char} (hnames : ∀ a ∈ names, IsBinaryKey a.1.toList)
    (hdollar : '$' ∉ method) (h : IsCallOf method name.toList) :
    IsCallOf method (names.display name).toList := by
  refine display_induction (P := fun text => IsCallOf method text.toList)
    (fun a ha text htext => ?_) h
  rw [toList_replaceName]
  exact isCallOf_replaceAfter (hnames a ha) hdollar htext

end LocalNames

end Xref.Declaration
