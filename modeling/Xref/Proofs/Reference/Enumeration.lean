import Mathlib.Data.List.Forall2
import Xref.Proofs.Reference.InStepVisit

/-!
# References do not depend on the order of local names

A table of local names can be enumerated in any order. Display names are the same for every order
if the table is steady, and then so are the references of a unit: a walk uses the table for display
only.
-/
namespace Xref.Reference

open Declaration Java Resolve Syntax Text

lemma Record.Twin.eq {π : Passage} {r r' : Record} (h : r.Twin π r') (hfixed : π.isFixed) :
    r' = r := by
  obtain ⟨hname, hstatus, hlocation, hvalues, hspan, hsnippet⟩ := h
  cases r
  cases r'
  exact Record.mk.injEq .. ▸ ⟨hname, hstatus, hlocation, hspan hfixed, hsnippet hfixed, hvalues⟩

lemma records_of_similar {source : List Char} {unit : Tree} (h : parse? source = some unit)
    {index index' : TypeIndex} (hindex : index.Similar index') (d : Declarations)
    {names : LocalNames} (hdisplay : ∀ name, names.display name = d.display name) :
    (collect (Place.ofUnit index' source { d with localNames := names }) unit).records =
      (collect (Place.ofUnit index source d) unit).records := by
  have htwin := (placed_of_parse h).1.twin source .outside
  have hplace : (Place.ofUnit index source d).toSetting.Twin (.refl source)
      (Place.ofUnit index' source { d with localNames := names }).toSetting :=
    ⟨hindex, rfl, rfl, fun _ => rfl, hdisplay, fun _ => rfl, rfl, rfl⟩
  have hrecords := collect_twin htwin h h hplace .nil
  have hsame := hrecords.imp fun r r' hr => (hr.eq trivial).symm
  rw [List.forall₂_eq_eq_eq] at hsame
  exact hsame.symm

/-- The display names and the references of a unit are the same in whatever order its table of
local names is enumerated, if the table is steady. -/
theorem records_of_enumeration {source : List Char} {unit : Tree} (h : parse? source = some unit)
    (base : TypeIndex) (label : String)
    (hsteady : (declarationsOf label source unit).localNames.Steady) {names : LocalNames}
    (hperm : names.Perm (declarationsOf label source unit).localNames) :
    let d := declarationsOf label source unit
    (∀ name, names.display name = d.display name) ∧
      (collect (Place.ofUnit (base.overlay d.types) source { d with localNames := names })
        unit).records = (analyzeUnit base label source unit).records := by
  have hproper : (declarationsOf label source unit).localNames.Proper :=
    proper_ofUnit ((placed_of_parse h).1.twin source .outside)
  have hdisplay := hsteady.display_perm hproper hperm
  exact ⟨hdisplay, records_of_similar h (.refl _) _ hdisplay⟩

/-- Here two local classes have binary names of the same length. -/
theorem records_of_swapped_names :
    let source := "class A { void f() { class B {} class C { B b; } } }".toList
    let swapped : LocalNames := [("A$1C", "C"), ("A$1B", "B")]
    ∃ unit, parse? source = some unit ∧
      (declarationsOf "A.java" source unit).localNames = [("A$1B", "B"), ("A$1C", "C")] ∧
      ∀ base : TypeIndex, let d := declarationsOf "A.java" source unit
        (∀ name, swapped.display name = d.display name) ∧
          (collect (Place.ofUnit (base.overlay d.types) source { d with localNames := swapped })
            unit).records = (analyzeUnit base "A.java" source unit).records := by
  intro source swapped
  obtain ⟨unit, hunit, hnames⟩ : ∃ unit, parse? source = some unit ∧
      (declarationsOf "A.java" source unit).localNames = [("A$1B", "B"), ("A$1C", "C")] := by
    decide +kernel
  have hsteady : (declarationsOf "A.java" source unit).localNames.Steady := by
    rw [hnames]
    have hchars : [("A$1B", "B"), ("A$1C", "C")].all fun a => a.1.toList.all isNameChar := by
      decide +kernel
    exact ⟨by simpa only [List.all_eq_true] using hchars, by decide +kernel⟩
  have hperm : swapped.Perm (declarationsOf "A.java" source unit).localNames := by
    rw [hnames]
    exact .swap ..
  exact ⟨unit, hunit, hnames, fun base => records_of_enumeration hunit base "A.java" hsteady hperm⟩

/-- Here the simple name `Y` of a local class begins the equally long binary name of another one.
The type `$1Z` in the first one is called `Z` in one order of the table and not in the other. -/
theorem display_of_uncovered_name :
    let source := "class XX { void f() { class Y { class $1Z {} } } }
      class Y$ { void f() { class Z {} } }".toList
    let swapped : LocalNames := [("Y$$1Z", "Z"), ("XX$1Y", "Y")]
    ∃ unit, parse? source = some unit ∧
      let d := declarationsOf "XX.java" source unit
      "XX$1Y$$1Z" ∈ d.types.map TypeInfo.name ∧ swapped.Perm d.localNames ∧
        d.display "XX$1Y$$1Z" = "Z" ∧ swapped.display "XX$1Y$$1Z" = "Y$$1Z" := by
  intro source swapped
  obtain ⟨unit, hunit, htypes, hnames⟩ : ∃ unit, parse? source = some unit ∧
      let d := declarationsOf "XX.java" source unit
      "XX$1Y$$1Z" ∈ d.types.map TypeInfo.name ∧
        d.localNames = [("XX$1Y", "Y"), ("Y$$1Z", "Z")] := by
    decide +kernel
  have hsorted {names : LocalNames}
      (h : names.Pairwise fun a b => b.1.utf8ByteSize ≤ a.1.utf8ByteSize) :
      names.longestFirst = names := List.mergeSort_of_pairwise (by simpa using h)
  refine ⟨unit, hunit, htypes, ?_, ?_, ?_⟩
  · rw [hnames]
    exact .swap ..
  · rw [Declarations.display, hnames, LocalNames.display, hsorted (by decide)]
    decide +kernel
  · rw [LocalNames.display, hsorted (by decide)]
    decide +kernel

end Xref.Reference
