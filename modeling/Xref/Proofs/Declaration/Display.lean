import Mathlib.Data.List.Nodup
import Xref.Proofs.Declaration.Keeping

/-!
# The order of local names

Binary names are replaced from the longest to the shortest, and equally long ones in the order of
the table. A replacement can uncover another name if the simple name that it leaves begins that
name. If no equally long name is uncovered in this way, the order of the table does not matter.
-/
open List Bool String

namespace Xref.Declaration

open Text

/-- The characters that no name can begin after. -/
def isNameChar (c : Char) : Bool := !opensName (some c)

/-- What becomes of a text of name characters when `key` is replaced in it. -/
def replaceStart (key simple run : List Char) : List Char :=
  if key <+: run ∧ closesName (run.drop key.length).head? then simple ++ run.drop key.length
  else run

/-- Whether replacing the first name can leave a text that begins with the second one. -/
def uncovers (a b : String × String) : Bool :=
  a.2.toList.isPrefixOf b.1.toList && closesName (b.1.toList.drop a.2.toList.length).head?

/-- A table of binary names that end with their simple names, each at most once. -/
structure LocalNames.Proper (names : LocalNames) : Prop where
  nodup : (names.map Prod.fst).Nodup
  ends : ∀ a ∈ names, ∃ owner : List Char, owner ≠ [] ∧ a.1.toList = owner ++ a.2.toList

/-- A table in which no name uncovers another one that is equally long. Its names are made of name
characters. -/
structure LocalNames.Steady (names : LocalNames) : Prop where
  chars : ∀ a ∈ names, ∀ c ∈ a.1.toList, isNameChar c
  apart : ∀ a ∈ names, ∀ b ∈ names, a.1.utf8ByteSize = b.1.utf8ByteSize → a ≠ b → ¬ uncovers a b

section

variable {key simple run rest : List Char} {before : Option Char}

lemma opensName_key (hne : key ≠ []) (hkey : ∀ c ∈ key, isNameChar c) :
    opensName key.getLast? = false := by
  obtain ⟨z, hz⟩ := Option.isSome_iff_exists.mp (getLast?_isSome.mpr hne)
  rw [hz]
  simpa [isNameChar] using hkey z (mem_of_getLast? hz)

section

variable (hne : key ≠ []) (hkey : ∀ c ∈ key, isNameChar c)
  (hrest : ∀ c, rest.head? = some c → isNameChar c = false)
include hkey hrest

lemma prefix_run (h : key <+: run ++ rest) : key <+: run :=
  prefix_of_append (fun c hc hmem => by simpa [hrest c hc] using hkey c hmem) h

include hne

lemma not_prefix_rest : ¬ key <+: rest := by
  intro h
  have hnil : key <+: [] := prefix_run hkey hrest h
  exact hne (prefix_nil.mp hnil)

lemma replaceAfter_rest (before : Option Char) :
    replaceAfter key simple before rest = replaceAfter key simple none rest := by
  have hnot := not_prefix_rest hne hkey hrest
  cases rest with
  | nil => rfl
  | cons c rest => rw [replaceAfter_cons hnot, replaceAfter_cons hnot]

lemma replaceAfter_copy (hrun : ∀ c ∈ run, isNameChar c) (hbefore : opensName before = false) :
    replaceAfter key simple before (run ++ rest) = run ++ replaceAfter key simple none rest := by
  induction hwhole : run ++ rest using occurrence_induction hne generalizing before run with
  | nil =>
    obtain ⟨rfl, rfl⟩ := append_eq_nil_iff.mp hwhole
    rfl
  | copy c cs hnot ih =>
    cases run with
    | nil => rw [← hwhole, nil_append, replaceAfter_rest hne hkey hrest, nil_append]
    | cons x run =>
      obtain ⟨hx, hrun⟩ := forall_mem_cons.mp hrun
      obtain ⟨rfl, hcs⟩ := List.cons.inj hwhole
      rw [replaceAfter_cons hnot, ih hrun (by simpa [isNameChar] using hx) hcs, cons_append]
  | occurrence tail ih =>
    obtain ⟨run, rfl⟩ := prefix_run hkey hrest ⟨tail, hwhole.symm⟩
    rw [List.append_assoc] at hwhole
    rw [replaceAfter_key hne, hbefore, Bool.false_and, if_neg Bool.false_ne_true,
      ih (forall_mem_append.mp hrun).2 (opensName_key hne hkey)
        (append_cancel_left hwhole), List.append_assoc]

lemma replaceAfter_run (hrun : ∀ c ∈ run, isNameChar c) :
    replaceAfter key simple none (run ++ rest) =
      replaceStart key simple run ++ replaceAfter key simple none rest := by
  by_cases hbegins : key <+: run
  · obtain ⟨run, rfl⟩ := hbegins
    have hcloses : closesName (run ++ rest).head? = closesName run.head? := by
      cases run with
      | cons x run => rfl
      | nil =>
        cases rest with
        | nil => rfl
        | cons c rest =>
          have hc := hrest c rfl
          simp [isNameChar, opensName] at hc
          simp [closesName, hc]
    rw [List.append_assoc, replaceAfter_key hne, hcloses,
      replaceAfter_copy hne hkey hrest (forall_mem_append.mp hrun).2 (opensName_key hne hkey),
      replaceStart, drop_left]
    by_cases hclose : closesName run.head? <;> simp [hclose, opensName]
  · rw [replaceStart, if_neg fun h => hbegins h.1]
    cases run with
    | nil => rfl
    | cons x run =>
      obtain ⟨hx, hrun⟩ := forall_mem_cons.mp hrun
      have hnot : ¬ key <+: x :: (run ++ rest) := fun h => hbegins (prefix_run hkey hrest h)
      rw [cons_append, replaceAfter_cons hnot,
        replaceAfter_copy hne hkey hrest hrun (by simpa [isNameChar] using hx), cons_append]

end

lemma replaceStart_chars (hsimple : ∀ c ∈ simple, isNameChar c)
    (hrun : ∀ c ∈ run, isNameChar c) : ∀ c ∈ replaceStart key simple run, isNameChar c := by
  unfold replaceStart
  split
  · exact forall_mem_append.mpr ⟨hsimple, fun c hc => hrun c (mem_of_mem_drop hc)⟩
  · exact hrun

end

/-- Every text is a run of name characters, or such a run, another character and a text. -/
lemma runs_induction {P : List Char → Prop} (last : ∀ run, (∀ c ∈ run, isNameChar c) → P run)
    (step : ∀ run c text, (∀ c ∈ run, isNameChar c) → isNameChar c = false → P text →
      P (run ++ c :: text)) (text : List Char) : P text := by
  suffices h : ∀ run, (∀ c ∈ run, isNameChar c) → P (run ++ text) from h [] (by simp)
  induction text with
  | nil =>
    intro run hrun
    rw [append_nil]
    exact last run hrun
  | cons c text ih =>
    intro run hrun
    cases hc : isNameChar c with
    | false => exact step run c text hrun hc (ih [] (by simp))
    | true =>
      rw [append_cons]
      exact ih (run ++ [c]) (forall_mem_append.mpr ⟨hrun, by simpa using hc⟩)

section

variable {key simple key' simple' : List Char}

/-- What is replaced for the first of two names does not begin with the second one before, nor does
it after that. -/
lemma replaceStart_of_replaced (simple' : List Char) (hshort : ¬ key' <+: simple)
    (hne : ¬ key' <+: key) (hne' : ¬ key <+: key')
    (hapart : ¬ (simple <+: key' ∧ closesName (key'.drop simple.length).head?)) {run : List Char}
    (h : key <+: run ∧ closesName (run.drop key.length).head?) :
    replaceStart key' simple' run = run ∧
      replaceStart key' simple' (simple ++ run.drop key.length) =
        simple ++ run.drop key.length := by
  obtain ⟨⟨tail, rfl⟩, hcloses⟩ := h
  rw [drop_left] at hcloses ⊢
  refine ⟨if_neg fun h => ?_, if_neg fun h => ?_⟩
  · rcases List.prefix_or_prefix_of_prefix h.1 (prefix_append key tail) with h | h
    · exact hne h
    · exact hne' h
  · -- the second name would be the simple name and a beginning of what follows it
    obtain ⟨tail', rfl⟩ : simple <+: key' :=
      (List.prefix_or_prefix_of_prefix h.1 (prefix_append simple tail)).resolve_left hshort
    have hstart : tail' <+: tail := (prefix_append_right_inj simple).mp h.1
    refine hapart ⟨prefix_append simple tail', ?_⟩
    rw [drop_left]
    cases tail' with
    | nil => exact absurd (by simp) hshort
    | cons c tail' =>
      obtain ⟨rest, rfl⟩ := hstart
      exact hcloses

lemma replaceStart_comm (hshort : ¬ key' <+: simple) (hshort' : ¬ key <+: simple')
    (hne : ¬ key' <+: key) (hne' : ¬ key <+: key')
    (hapart : ¬ (simple <+: key' ∧ closesName (key'.drop simple.length).head?))
    (hapart' : ¬ (simple' <+: key ∧ closesName (key.drop simple'.length).head?)) (run : List Char) :
    replaceStart key' simple' (replaceStart key simple run) =
      replaceStart key simple (replaceStart key' simple' run) := by
  by_cases h : key <+: run ∧ closesName (run.drop key.length).head?
  · obtain ⟨hbefore, hafter⟩ := replaceStart_of_replaced simple' hshort hne hne' hapart h
    have hstart : replaceStart key simple run = simple ++ run.drop key.length := if_pos h
    rw [hbefore, hstart, hafter]
  · have hstart : replaceStart key simple run = run := if_neg h
    rw [hstart]
    by_cases h' : key' <+: run ∧ closesName (run.drop key'.length).head?
    · obtain ⟨_, hafter⟩ := replaceStart_of_replaced simple hshort' hne' hne hapart' h'
      have hstart' : replaceStart key' simple' run = simple' ++ run.drop key'.length := if_pos h'
      rw [hstart', hafter]
    · have hstart' : replaceStart key' simple' run = run := if_neg h'
      rw [hstart', hstart]

end

lemma eq_of_inside {s t : String} (h : s.toList <:+: t.toList)
    (hsize : t.utf8ByteSize ≤ s.utf8ByteSize) : s = t := by
  obtain ⟨before, behind, hparts⟩ := h
  obtain rfl : String.ofList before ++ s ++ String.ofList behind = t := by
    simp [← toList_inj, ← hparts]
  simp only [utf8ByteSize_append] at hsize
  have hbefore : String.ofList before = "" := utf8ByteSize_eq_zero_iff.mp (by omega)
  have hbehind : String.ofList behind = "" := utf8ByteSize_eq_zero_iff.mp (by omega)
  rw [hbefore, hbehind, String.empty_append, String.append_empty]

lemma replaceAfter_step {key simple run text : List Char} {c : Char} (hne : key ≠ [])
    (hkey : ∀ c ∈ key, isNameChar c) (hrun : ∀ c ∈ run, isNameChar c) (hc : isNameChar c = false) :
    replaceAfter key simple none (run ++ c :: text) =
      replaceStart key simple run ++ c :: replaceAfter key simple none text := by
  have hopens : opensName (some c) = opensName none := by simpa [isNameChar, opensName] using hc
  have hrest : ∀ x, (c :: text).head? = some x → isNameChar x = false := by simpa using hc
  rw [replaceAfter_run hne hkey hrest hrun, replaceAfter_cons (not_prefix_rest hne hkey hrest)]
  congr 2
  cases text <;> simp only [replaceNameFrom, hopens]

lemma replaceAfter_last {key simple run : List Char} (hne : key ≠ [])
    (hkey : ∀ c ∈ key, isNameChar c) (hrun : ∀ c ∈ run, isNameChar c) :
    replaceAfter key simple none run = replaceStart key simple run := by
  have h : replaceAfter key simple none (run ++ []) =
      replaceStart key simple run ++ replaceAfter key simple none [] :=
    replaceAfter_run hne hkey (by simp) hrun
  simpa [replaceNameFrom] using h

/-- Two sorted lists of the same members differ only in the order of members that are equal in
rank, so a fold over them is the same if those commute. -/
lemma foldl_of_sorted {α β : Type} {f : β → α → β} (rank : α → Nat) {l l' : List α}
    (hperm : l.Perm l') (hl : l.Pairwise fun a b => rank b ≤ rank a)
    (hl' : l'.Pairwise fun a b => rank b ≤ rank a)
    (hcomm : ∀ a ∈ l, ∀ b ∈ l, rank a = rank b → ∀ x, f (f x a) b = f (f x b) a) (x : β) :
    l.foldl f x = l'.foldl f x := by
  induction l generalizing l' x with
  | nil => rw [hperm.nil_eq]
  | cons a l ih =>
    obtain ⟨before, after, rfl⟩ := append_of_mem (hperm.mem_iff.mp mem_cons_self)
    have hrest : l.Perm (before ++ after) := ((hperm.trans perm_middle).cons_inv)
    -- what comes before `a` in the second list is equal to it in rank
    have hrank : ∀ b ∈ before, rank b = rank a := by
      intro b hb
      have hge := (pairwise_append.mp hl').2.2 b hb a mem_cons_self
      have hle := rel_of_pairwise_cons hl (hrest.mem_iff.mpr (mem_append_left after hb))
      omega
    have hmem : ∀ b ∈ a :: before, b ∈ a :: l := by
      intro b hb
      rcases mem_cons.mp hb with rfl | hb
      · exact mem_cons_self
      · exact mem_cons_of_mem a (hrest.mem_iff.mpr (mem_append_left after hb))
    have hfirst : (a :: before).foldl f x = (before ++ [a]).foldl f x := by
      refine (perm_append_singleton a before).symm.foldl_eq' (fun b hb c hc y => ?_) x
      have hrank' : ∀ b ∈ a :: before, rank b = rank a := by simpa using hrank
      exact hcomm b (hmem b hb) c (hmem c hc) ((hrank' b hb).trans (hrank' c hc).symm) y
    have hsorted : (before ++ after).Pairwise fun a b => rank b ≤ rank a :=
      hl'.sublist ((sublist_cons_self a after).append_left before)
    calc (a :: l).foldl f x = l.foldl f (f x a) := rfl
      _ = (before ++ after).foldl f (f x a) :=
        ih hrest hl.of_cons hsorted (fun b hb c hc => hcomm b (mem_cons_of_mem a hb) c
          (mem_cons_of_mem a hc)) (f x a)
      _ = after.foldl f ((a :: before).foldl f x) := by rw [List.foldl_append]; rfl
      _ = (before ++ a :: after).foldl f x := by rw [hfirst]; simp

namespace LocalNames

variable {names names' : LocalNames} {a b : String × String}

section

variable (h : names.Proper) (ha : a ∈ names)
include h ha

lemma Proper.ne_nil : a.1.toList ≠ [] := by
  obtain ⟨owner, howner, hkey⟩ := h.ends a ha
  simp [hkey, howner]

lemma Proper.size_lt : a.2.utf8ByteSize < a.1.utf8ByteSize := by
  obtain ⟨owner, howner, hkey⟩ := h.ends a ha
  obtain hkey : a.1 = String.ofList owner ++ a.2 := by
    rw [← toList_inj, toList_append, toList_ofList, hkey]
  have hpos : (String.ofList owner).utf8ByteSize ≠ 0 := by
    intro hzero
    rw [utf8ByteSize_eq_zero_iff, ← toList_inj, toList_ofList] at hzero
    exact howner hzero
  rw [hkey, utf8ByteSize_append]
  omega

lemma Proper.not_prefix_simple
    (hsize : a.1.utf8ByteSize = b.1.utf8ByteSize) : ¬ b.1.toList <+: a.2.toList := by
  intro hbegins
  have hlt := h.size_lt ha
  have heq := eq_of_inside hbegins.isInfix (by omega)
  rw [heq] at hsize
  omega

lemma Proper.not_begins (hb : b ∈ names) (hne : a ≠ b)
    (hsize : a.1.utf8ByteSize = b.1.utf8ByteSize) : ¬ b.1.toList <+: a.1.toList := by
  intro hbegins
  exact hne (inj_on_of_nodup_map h.nodup ha hb
    (eq_of_inside hbegins.isInfix (Nat.le_of_eq hsize)).symm)

end

lemma Proper.simple_chars (h : names.Proper) (hsteady : names.Steady) (ha : a ∈ names) :
    ∀ c ∈ a.2.toList, isNameChar c := by
  obtain ⟨owner, _, hkey⟩ := h.ends a ha
  intro c hc
  exact hsteady.chars a ha c (hkey ▸ mem_append_right owner hc)

lemma Steady.replaceName_comm (h : names.Steady) (hproper : names.Proper) (ha : a ∈ names)
    (hb : b ∈ names) (hsize : a.1.utf8ByteSize = b.1.utf8ByteSize) (text : String) :
    replaceName b.1 b.2 (replaceName a.1 a.2 text) =
      replaceName a.1 a.2 (replaceName b.1 b.2 text) := by
  by_cases hne : a = b
  · rw [hne]
  have hapart {a b : String × String} (ha : a ∈ names) (hb : b ∈ names) (hne : a ≠ b)
      (hsize : a.1.utf8ByteSize = b.1.utf8ByteSize) :
      ¬ (a.2.toList <+: b.1.toList ∧
        closesName (b.1.toList.drop a.2.toList.length).head?) := fun huncovers =>
    h.apart a ha b hb hsize hne (by simpa [uncovers] using huncovers)
  have hstart := replaceStart_comm
    (hproper.not_prefix_simple ha hsize) (hproper.not_prefix_simple hb hsize.symm)
    (hproper.not_begins ha hb hne hsize) (hproper.not_begins hb ha (Ne.symm hne) hsize.symm)
    (hapart ha hb hne hsize) (hapart hb ha (Ne.symm hne) hsize.symm)
  have hchars {a : String × String} (ha : a ∈ names) := h.chars a ha
  have hnil {a : String × String} (ha : a ∈ names) := hproper.ne_nil ha
  have hsimple {a : String × String} (ha : a ∈ names) := hproper.simple_chars h ha
  simp only [← toList_inj, toList_replaceName]
  induction text.toList using runs_induction with
  | last run hrun =>
    rw [replaceAfter_last (hnil ha) (hchars ha) hrun, replaceAfter_last (hnil hb) (hchars hb) hrun,
      replaceAfter_last (hnil hb) (hchars hb) (replaceStart_chars (hsimple ha) hrun),
      replaceAfter_last (hnil ha) (hchars ha) (replaceStart_chars (hsimple hb) hrun), hstart]
  | step run c text hrun hc ih =>
    rw [replaceAfter_step (hnil ha) (hchars ha) hrun hc,
      replaceAfter_step (hnil hb) (hchars hb) hrun hc,
      replaceAfter_step (hnil hb) (hchars hb) (replaceStart_chars (hsimple ha) hrun) hc,
      replaceAfter_step (hnil ha) (hchars ha) (replaceStart_chars (hsimple hb) hrun) hc, hstart,
      ih]

lemma longestFirst_sorted (names : LocalNames) :
    names.longestFirst.Pairwise fun a b => b.1.utf8ByteSize ≤ a.1.utf8ByteSize := by
  let le (a b : String × String) : Bool := b.1.utf8ByteSize ≤ a.1.utf8ByteSize
  have htrans (a b c : String × String) (hab : le a b) (hbc : le b c) : le a c := by
    simp only [le, decide_eq_true_eq] at hab hbc ⊢
    omega
  have htotal (a b : String × String) : le a b || le b a := by
    simp only [le, or_eq_true, decide_eq_true_eq]
    omega
  exact (pairwise_mergeSort htrans htotal names).imp fun h => by simpa [le] using h

lemma Steady.display_perm (h : names.Steady) (hproper : names.Proper)
    (hperm : names'.Perm names) (name : String) : names'.display name = names.display name := by
  have hsorted : names.longestFirst.Perm names'.longestFirst :=
    (mergeSort_perm names _).trans (hperm.symm.trans (mergeSort_perm names' _).symm)
  refine (foldl_of_sorted (fun a => a.1.utf8ByteSize) hsorted (longestFirst_sorted names)
    (longestFirst_sorted names') (fun a ha b hb hsize text => ?_) name).symm
  have hmem (c : String × String) (hc : c ∈ names.longestFirst) : c ∈ names := mem_mergeSort.mp hc
  exact h.replaceName_comm hproper (hmem a ha) (hmem b hb) hsize text

end LocalNames

end Xref.Declaration

