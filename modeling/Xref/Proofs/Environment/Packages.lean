import Xref.Environment.Basic
import Xref.Proofs.Lookup
import Xref.Proofs.Reference.Numbering
import Xref.Proofs.Text.Pieces

/-!
# Packages that hold types

The packages of an environment are gathered from the names of its types, those of a unit from its
package declaration. Both come to the same: a package exists if it stands before the last dot in the
name of a type, or if what stands there is a package below it.
-/
open List

namespace Xref

open Declaration Files Java Reference Resolve Syntax Text

/-- What stands before the last dot of a name. A name without a dot has no home. -/
def HasHome (name home : String) : Prop :=
  ∃ simple, '.' ∉ simple.toList ∧ name = home ++ "." ++ simple

def IsWithin (home package : String) : Prop :=
  home = package ∨ ∃ rest, home = package ++ "." ++ rest

lemma toList_dot : ".".toList = ['.'] := rfl

lemma hasHome_iff {name home : String} :
    HasHome name home ↔ ∃ cut, cutLast '.' name = some cut ∧ cut.1 = home := by
  constructor
  · rintro ⟨simple, hdot, rfl⟩
    have hcut : cutChars '.' (home ++ "." ++ simple).toList.reverse =
        some (simple.toList.reverse, home.toList.reverse) :=
      cutChars_eq_some.mpr ⟨by simpa using hdot, by simp⟩
    exact ⟨(home, simple), by rw [cutLast, hcut]; simp, rfl⟩
  · rintro ⟨cut, hcut, rfl⟩
    obtain ⟨⟨front, rest⟩, hchars, rfl⟩ := Option.map_eq_some_iff.mp hcut
    obtain ⟨hdot, hname⟩ := cutChars_eq_some.mp hchars
    refine ⟨String.ofList front.reverse, by simpa using hdot, ?_⟩
    rw [← String.toList_inj, ← reverse_inj, hname]
    simp

lemma Reference.InPackage.eq_of_hasHome {package name home home' : String}
    (h : InPackage package name home) (h' : HasHome name home') : home' = package := by
  obtain ⟨⟨simple, hdot, rfl⟩, -⟩ := h
  obtain ⟨last, hlast, hname⟩ := h'
  have hlist := congrArg String.toList hname
  unfold qualify at hlist
  split at hlist
  · simp [hlist] at hdot
  · simp only [String.toList_append, toList_dot, append_assoc, singleton_append] at hlist
    exact String.toList_inj.mp (append_cons_inj hdot hlast hlist).1.symm

lemma not_isWithin_empty {p : String} (hp : p ≠ "") : ¬ IsWithin "" p := by
  rintro (h | ⟨rest, h⟩)
  · exact hp h.symm
  · have hlist := congrArg String.toList h
    simp at hlist

lemma mem_packagePrefixes_iff {package p : String} (hp : p ≠ "") :
    p ∈ packagePrefixes package ↔ IsWithin package p := by
  unfold packagePrefixes
  split
  next hempty =>
    have hnone : package = "" := by simpa using hempty
    simp [hnone, not_isWithin_empty hp]
  next =>
    simp only [mem_reverse, mem_map, mem_range]
    have hall := joinWith_split toList_dot package
    constructor
    · rintro ⟨k, hk, rfl⟩
      -- either all segments were taken, or those that are left follow a dot
      by_cases hlast : (split '.' package).drop (k + 1) = []
      · rw [take_of_length_le (drop_eq_nil_iff.mp hlast), hall]
        exact .inl rfl
      · refine .inr ⟨joinWith "." ((split '.' package).drop (k + 1)), ?_⟩
        rw [← joinWith_append _ hlast, take_append_drop, hall]
        exact ne_nil_of_length_pos (by rw [length_take]; omega)
    · rintro (rfl | ⟨rest, rfl⟩)
      · have hlength := length_pos_of_ne_nil (split_ne_nil '.' package)
        refine ⟨(split '.' package).length - 1, by omega, ?_⟩
        rw [Nat.sub_add_cancel hlength, take_length, hall]
      · have hlength := length_pos_of_ne_nil (split_ne_nil '.' p)
        refine ⟨(split '.' p).length - 1, ?_, ?_⟩
        · rw [split_append toList_dot, length_append]
          omega
        · rw [split_append toList_dot, Nat.sub_add_cancel hlength, take_left,
            joinWith_split toList_dot]

namespace Environment

variable {env : Environment} {p q : String}

lemma mem_names_iff : q ∈ env.names ↔ env.contains q := by
  have hkeys {α : Type} (table : List (String × α)) :
      q ∈ table.map Prod.fst ↔ (table.lookup q).isSome := by
    rw [isSome_lookup_iff]
    simp
  rw [names, mem_append, contains, Bool.or_eq_true, hkeys, hkeys]

lemma mem_packages_iff :
    p ∈ env.packages ↔ ∃ q, env.contains q ∧ ∃ home, HasHome q home ∧ p ∈ packagePrefixes home := by
  simp only [packages, mem_eraseDups, mem_flatMap, mem_names_iff, hasHome_iff]
  refine exists_congr fun q => and_congr_right fun _ => ?_
  cases cutLast '.' q <;> simp

/-- A package exists exactly if it is around a type that the index contains. -/
def PackagesExact (index : TypeIndex) : Prop :=
  ∀ p, p ≠ "" → (index.packageExists p ↔
    ∃ name, index.contains name ∧ ∃ home, HasHome name home ∧ IsWithin home p)

lemma packagesExact_index (env : Environment) (files : FileTree) :
    PackagesExact (env.index files) := by
  intro p hp
  simp only [index, contains_iff_mem, mem_packages_iff, mem_packagePrefixes_iff hp]

/-- Of an environment and of a unit on top of it exactly those packages exist that the names of
types tell. -/
theorem packagesExact_overlay (env : Environment) (files : FileTree) :
    PackagesExact (env.index files) ∧
    ∀ source unit label, parse? source = some unit →
      PackagesExact ((env.index files).overlay (declarationsOf label source unit).types) := by
  refine ⟨packagesExact_index env files, fun source unit label hparse p hp => ?_⟩
  obtain ⟨entries, hentries⟩ := exists_entries_of_target hparse label
  have hpackage {info : TypeInfo} (hinfo : info ∈ (declarationsOf label source unit).types) :=
    inPackage_of_mem hparse hentries hinfo
  simp only [TypeIndex.overlay, Bool.or_eq_true, or_and_right, exists_or,
    packagesExact_index env files p hp]
  refine or_congr_left ?_
  simp only [TypeIndex.ofTypes, any_eq_true, contains_iff_mem, mem_packagePrefixes_iff hp,
    beq_iff_eq]
  constructor
  · rintro ⟨info, hinfo, hwithin⟩
    obtain ⟨⟨simple, hdot, hname⟩, hhome⟩ := hpackage hinfo
    refine ⟨info.name, ⟨info, hinfo, rfl⟩, info.package, ⟨simple, hdot, ?_⟩, hwithin⟩
    rw [hname, ← hhome, qualify, if_neg]
    intro hempty
    obtain hnone : info.package = "" := by simpa using hempty
    exact not_isWithin_empty hp (hnone ▸ hwithin)
  · rintro ⟨name, ⟨info, hinfo, rfl⟩, home, hhas, hwithin⟩
    refine ⟨info, hinfo, ?_⟩
    rw [(hpackage hinfo).home, ← (hpackage hinfo).eq_of_hasHome hhas]
    exact hwithin

/-- Only the unit has types. A package around its own exists, one below it does not. -/
theorem packagesExact_of_unit :
    let source := "package a.b; class A { void m() { class L {} } }".toList
    let env : Environment := .build .default {} [] []
    ∃ unit, parse? source = some unit ∧
      let index := (env.index {}).overlay (declarationsOf "A.java" source unit).types
      index.packageExists "a" ∧ index.packageExists "a.b.A" = false ∧
        ∃ name, index.contains name ∧ ∃ home, HasHome name home ∧ IsWithin home "a" := by
  intro source env
  obtain ⟨unit, hunit, hexists, hnot⟩ : ∃ unit, parse? source = some unit ∧
      let index := (env.index {}).overlay (declarationsOf "A.java" source unit).types
      index.packageExists "a" ∧ index.packageExists "a.b.A" = false := by
    decide +kernel
  exact ⟨unit, hunit, hexists, hnot,
    ((packagesExact_overlay env {}).2 source unit "A.java" hunit "a" (by decide)).mp hexists⟩

end Environment

end Xref
