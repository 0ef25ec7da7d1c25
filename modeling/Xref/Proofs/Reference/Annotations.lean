import Xref.Proofs.Reference.Numbering
import Xref.Proofs.Reference.Records

/-!
# Annotations are reported

The annotations of a unit fall into those that the walk comes by and those that stand in parts that
it does not follow, such as the parameters of a lambda. Of the former each is reported once, at its
name, and the latter are not reported.
-/
open List

namespace Xref.Reference

open Declaration Java Resolve Syntax Text

def annotations : Tree → List Tree :=
  Tree.fold fun t cs => (if isAnnotation t.kind then [t] else []) ++ cs.flatMap Prod.snd

/-- The names of the annotations in the parts of a tree that are not followed. -/
def overlooked (d : Declarations) (source : List Char) : Tree → Extent → List Tree :=
  Tree.fold fun t cs e =>
    (if e ≠ .all ∧ isAnnotation t.kind then (t.child? .name).toList else []) ++
      cs.flatMap fun c => c.2 (e.into d source t c.1)

section

variable {d : Declarations} {source : List Char}

lemma annotations_eq (t : Tree) :
    annotations t = (if isAnnotation t.kind then [t] else []) ++ t.children.flatMap
      annotations := by
  rw [annotations, Tree.fold_eq, flatMap_map]

lemma overlooked_eq (t : Tree) (e : Extent) : overlooked d source t e =
    (if e ≠ .all ∧ isAnnotation t.kind then (t.child? .name).toList else []) ++
      t.children.flatMap fun c => overlooked d source c (e.into d source t c) := by
  rw [overlooked, Tree.fold_eq, flatMap_map]

lemma perm_annotations (t : Tree) (e : Extent) :
    ((annotations t).filterMap fun a => a.child? .name).Perm
      (noticed d source t e ++ overlooked d source t e) := by
  induction t using Tree.induction generalizing e with
  | step t ih =>
    have hown : ((if isAnnotation t.kind then [t] else []).filterMap fun a => a.child? .name) =
        (if e = .all ∧ isAnnotation t.kind then (t.child? .name).toList else []) ++
          if e ≠ .all ∧ isAnnotation t.kind then (t.child? .name).toList else [] := by
      by_cases hkind : isAnnotation t.kind <;> by_cases he : e = .all <;>
        cases hname : t.child? .name <;> simp [hkind, he, hname]
    have hparts : (t.children.flatMap fun c =>
        (annotations c).filterMap fun a => a.child? .name).Perm
        ((t.children.flatMap fun c => noticed d source c (e.into d source t c)) ++
          t.children.flatMap fun c => overlooked d source c (e.into d source t c)) :=
      (List.Perm.flatMap_left _ fun c hc => ih c hc _).trans (flatMap_append_perm _ _ _).symm
    rw [annotations_eq, noticed_eq, overlooked_eq, filterMap_append, hown,
      filterMap_flatMap, append_assoc, append_assoc]
    refine .append_left _ ((hparts.append_left _).trans ?_)
    exact perm_append_comm_assoc _ _ _

lemma exists_name_of_annotation {t a : Tree} (hshaped : t.Shaped) (ha : a ∈ annotations t) :
    ∃ name, a.child? .name = some name := by
  induction t using Tree.induction with
  | step t ih =>
    rw [annotations_eq] at ha
    rcases mem_append.mp ha with ha | ha
    · split at ha
      next hkind =>
        obtain rfl := mem_singleton.mp ha
        refine Tree.exists_child_of_required hshaped ?_
        revert hkind
        unfold isAnnotation
        cases a.kind <;> decide
      next => cases ha
    · obtain ⟨c, hc, ha⟩ := mem_flatMap.mp ha
      exact ih c hc (hshaped.parts c hc) ha

end

lemma isNamed_of_parse {source : List Char} {unit : Tree} (hparse : parse? source = some unit)
    {base : TypeIndex} (hbase : base.contains "" = false) (label : String) :
    let d := declarationsOf label source unit
    (Setting.ofUnit (base.overlay d.types) source d).IsNamed := by
  intro d
  obtain ⟨entries, h⟩ := exists_entries_of_target hparse label
  refine ⟨?_, fun t name hname => ?_⟩
  · refine Bool.or_eq_false_iff.mpr ⟨any_eq_false.mpr fun info hinfo => ?_, hbase⟩
    obtain ⟨e, he, rfl⟩ := mem_map.mp (h.types.mem_iff.mp hinfo)
    simpa [(h.faithful e he).name] using h.named e he
  · obtain ⟨e, he, rfl, _⟩ := exists_entry_of_name h hname
    exact h.named e he

/-- Each annotation that is not overlooked is reported once at its name. -/
structure AnnotationsReported (st : Setting) (unit : Tree) (records : List Record) : Prop where
  named : ∀ a ∈ annotations unit, ∃ name, a.child? .name = some name
  parted : ((annotations unit).filterMap fun a => a.child? .name).Perm
    (noticed st.declarations st.source unit .all ++ overlooked st.declarations st.source unit .all)
  reported : ((records.filter Record.isUse).map Record.span).Perm
    ((noticed st.declarations st.source unit .all).map fun name =>
      st.lines.span name.start name.stop)
  complete : overlooked st.declarations st.source unit .all = [] →
    ((records.filter Record.isUse).map Record.span).Perm
      ((annotations unit).filterMap fun a =>
        (a.child? .name).map fun name => st.lines.span name.start name.stop)

theorem annotationsReported_of_parse {source : List Char} {unit : Tree}
    (hparse : parse? source = some unit) {base : TypeIndex} (hbase : base.contains "" = false)
    (label : String) :
    let d := declarationsOf label source unit
    AnnotationsReported (.ofUnit (base.overlay d.types) source d) unit
      (analyzeUnit base label source unit).records := by
  intro d
  obtain ⟨added, hadded, _, huses⟩ := wrote_of_parse hparse (base.overlay d.types) d
  have hreported := huses (isNamed_of_parse hparse hbase label) nofun
  have hrecords : (analyzeUnit base label source unit).records = added := hadded
  refine ⟨fun a => exists_name_of_annotation (shaped_of_parse hparse), perm_annotations unit .all,
    by rw [hrecords]; exact hreported, fun hnone => ?_⟩
  have hnone : overlooked d source unit .all = [] := hnone
  have hall := (@perm_annotations d source unit .all).map fun name =>
    (LineMap.ofChars source).span name.start name.stop
  rw [hnone, List.append_nil, List.map_filterMap] at hall
  rw [hrecords]
  exact hreported.trans hall.symm

/-- One annotation stands in the arguments of another, and a third in front of a parameter. -/
theorem annotationsReported_of_arguments :
    let source :=
      "@interface N { N[] value() default {}; } class A { @N(@N) void m(@N int x) {} }".toList
    ∃ unit, parse? source = some unit ∧
      let d := declarationsOf "A.java" source unit
      (annotations unit).length = 3 ∧ overlooked d source unit .all = [] ∧
        AnnotationsReported (.ofUnit (TypeIndex.overlay d.types (.ofTypes [])) source d) unit
          (analyzeUnit (.ofTypes []) "A.java" source unit).records := by
  intro source
  obtain ⟨unit, hunit, hlength, hnone⟩ : ∃ unit, parse? source = some unit ∧
      (annotations unit).length = 3 ∧
        overlooked (declarationsOf "A.java" source unit) source unit .all = [] := by
    decide +kernel
  exact ⟨unit, hunit, hlength, hnone, annotationsReported_of_parse hunit rfl "A.java"⟩

/-- The parameter of a lambda has an annotation, and there is no record of it. -/
theorem annotation_of_lambda_parameter :
    let source := "@interface N {} class A { Runnable r = (@N int b) -> {}; }".toList
    (parse? source).any fun unit => (annotations unit).length == 1 &&
      (analyzeUnit (.ofTypes []) "A.java" source unit).records.all fun r => !r.isUse := by
  decide +kernel

end Xref.Reference
