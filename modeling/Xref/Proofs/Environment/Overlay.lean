import Xref.Proofs.Environment.Reading
import Xref.Proofs.Reference.Thinning

/-!
# A unit in front of an environment

The types of an analysed unit hide indexed types of the same names. A copy of the same text among
the sources has nothing that the unit has not. Names that the unit does not declare are found behind
it exactly if other source files or libraries have them.
-/
open List

namespace Xref.Environment

open Declaration Files Java Reference Resolve Syntax Text TypeIndex

variable {text : String} {unit : Tree}

/-- A source file with the text of a unit adds to the sources the types of the unit that are not
hidden in code, as they are declared. -/
lemma exists_typesOf (hparse : parse? text.toList = some unit) (label path : String) :
    ∃ finds outside, Exposes (declarationsOf label text.toList unit) text.toList unit
      outside finds ∧
      Sources.typesOf path text = outside.map fun t => { t with origin := .source path } := by
  obtain ⟨finds, hfinds⟩ := exists_finds hparse
    { source := text.toList, origin := .target label, includeLocal := true } rfl rfl
  refine ⟨finds, _, hfinds, ?_⟩
  have hunit : parseOrSalvage text.toList = unit := by rw [parseOrSalvage, hparse, Option.getD_some]
  calc Sources.typesOf path text
      = (Declarations.ofUnit
          { source := text.toList, origin := .source path, includeLocal := false } unit).types := by
        rw [← hunit]; rfl
    _ = _ := types_of_origin
      { source := text.toList, origin := .target label, includeLocal := false } (.source path)
      ((placed_of_parse hparse).1.twin _ .outside)

lemma declared_of_copy (hparse : parse? text.toList = some unit) (label path : String)
    {t : TypeInfo} (ht : t ∈ Sources.typesOf path text) :
    ∃ t' ∈ (declarationsOf label text.toList unit).types, t'.name = t.name := by
  obtain ⟨finds, outside, hfinds, htypes⟩ := exists_typesOf hparse label path
  rw [htypes] at ht
  obtain ⟨t', ht', rfl⟩ := mem_map.1 ht
  refine ⟨t', ?_, rfl⟩
  rw [hfinds.seen] at ht'
  rw [hfinds.types]
  exact (filter_sublist.map _).subset ht'

section

variable (config : Config) (files : FileTree) {q : String}

/-- A source file that counts, and whose text is another one, declares the type `q`. -/
def DeclaredElsewhere (roots : List String) (text q : String) : Prop :=
  ∃ root ∈ roots, ∃ path ∈ Sources.filesOf config files root, ∃ other,
    files.readText path = .ok other ∧ other ≠ text ∧ ∃ t ∈ Sources.typesOf path other, t.name = q

def InLibraries (libs : List String) (q : String) : Prop :=
  ∃ lib ∈ libs, ∃ place, (q, place) ∈ Libraries.entries config files lib

lemma isSome_classes_iff (libs roots : List String) (q : String) :
    ((build config files libs roots).classes.lookup q).isSome ↔
    InLibraries config files libs q := by
  rw [classes_build, lookup_firsts, isSome_lookup_iff]
  simp only [mem_flatMap, InLibraries]
  constructor
  · rintro ⟨place, lib, hlib, hentry⟩
    exact ⟨lib, hlib, place, hentry⟩
  · rintro ⟨lib, hlib, place, hentry⟩
    exact ⟨place, lib, hlib, hentry⟩

lemma mem_entriesOf_iff {path : String} {t : TypeInfo} : (q, t) ∈ Sources.entriesOf files path ↔
    ∃ text, files.readText path = .ok text ∧ t ∈ Sources.typesOf path text ∧ t.name = q := by
  unfold Sources.entriesOf
  cases files.readText path with
  | error cause => simp
  | ok text =>
    simp only [mem_map, Prod.mk.injEq, Except.ok.injEq]
    constructor
    · rintro ⟨t', ht', rfl, rfl⟩
      exact ⟨text, rfl, ht', rfl⟩
    · rintro ⟨_, rfl, ht, hname⟩
      exact ⟨t, ht, hname, rfl⟩

lemma isSome_sources_iff {text : String} {unit : Tree} (hparse : parse? text.toList = some unit)
    (label : String) (libs roots : List String)
    (hq : ∀ t ∈ (declarationsOf label text.toList unit).types, t.name ≠ q) :
    ((build config files libs roots).sources.lookup q).isSome ↔
      DeclaredElsewhere config files roots text q := by
  rw [sources_build, lookup_firsts, isSome_lookup_iff]
  simp only [mem_flatMap, Sources.entries, mem_entriesOf_iff, DeclaredElsewhere]
  constructor
  · rintro ⟨t, root, hroot, path, hpath, other, hread, ht, hname⟩
    refine ⟨root, hroot, path, hpath, other, hread, ?_, t, ht, hname⟩
    rintro rfl
    obtain ⟨t', ht', hname'⟩ := declared_of_copy hparse label path ht
    exact hq t' ht' (hname'.trans hname)
  · rintro ⟨root, hroot, path, hpath, other, hread, -, t, ht, hname⟩
    exact ⟨t, root, hroot, path, hpath, other, hread, ht, hname⟩

/-- What is found under the name `q` when a unit stands in front of `env`. -/
structure FoundBehind (libs roots : List String) (env : Environment) (text : String)
    (types : List TypeInfo) (q : String) : Prop where
  contains_iff : (TypeIndex.overlay types (env.index files)).contains q ↔
    DeclaredElsewhere config files roots text q ∨ InLibraries config files libs q
  info : (TypeIndex.overlay types (env.index files)).info q = env.info? files q
  contains_of_info : ((TypeIndex.overlay types (env.index files)).info q).isSome →
    (TypeIndex.overlay types (env.index files)).contains q

/-- Of the names that a unit does not declare, those of member types it no longer has among them,
the ones are found that other source files and libraries have. So nothing is found of an indexed
copy of the same text, and everything of one that is out of date. -/
theorem foundBehind_of_undeclared (libs roots consulted : List String) {text : String} {unit : Tree}
    (hparse : parse? text.toList = some unit) (label : String) {q : String}
    (hq : ∀ t ∈ (declarationsOf label text.toList unit).types, t.name ≠ q) :
    FoundBehind config files libs roots ((build config files libs roots).settle files consulted)
      text
      (declarationsOf label text.toList unit).types q := by
  set env := (build config files libs roots).settle files consulted with henv
  set types := (declarationsOf label text.toList unit).types with htypes
  have hcontains : (ofTypes types).contains q = false := by
    simpa [ofTypes] using hq
  have hnone : (ofTypes types).info q = none := by
    simpa [ofTypes] using hq
  have hindexed : (overlay types (env.index files)).contains q = env.contains q := by
    simp only [overlay, hcontains, Bool.false_or]
    rfl
  have hinfo : (overlay types (env.index files)).info q = env.info? files q := by
    simp only [overlay, hnone, Option.none_or, index_info]
  constructor
  case contains_iff =>
    rw [hindexed, contains, henv, sources_settle, classes_settle, Bool.or_eq_true,
      isSome_sources_iff config files hparse label libs roots hq, isSome_classes_iff]
  case info => exact hinfo
  case contains_of_info =>
    rw [hinfo, hindexed]
    intro h
    exact (indexedAs_of_build config files libs roots consulted q).contains_iff.2 (.inl h)

/-- The sources have the unit itself and another file, whose types are all that is found besides. -/
theorem foundBehind_of_copy :
    let copy : List UInt8 := [99, 108, 97, 115, 115, 32, 65, 32, 123, 125]
    let other : List UInt8 := [99, 108, 97, 115, 115, 32, 67, 32, 123, 125]
    let files : FileTree :=
      { entries := [(["A.java"], .file (.bytes copy)), (["C.java"], .file (.bytes other))] }
    let roots := ["A.java", "C.java"]
    ∃ unit, parse? "class A {}".toList = some unit ∧
      let types := (declarationsOf "A.java" "class A {}".toList unit).types
      ((∀ t ∈ types, t.name ≠ "A$B") ∧ FoundBehind .default files [] roots
          ((build .default files [] roots).settle files []) "class A {}" types "A$B") ∧
        ((∀ t ∈ types, t.name ≠ "C") ∧ FoundBehind .default files [] roots
          ((build .default files [] roots).settle files []) "class A {}" types "C") := by
  intro copy other files roots
  obtain ⟨unit, hunit, hall⟩ : ∃ unit, parse? "class A {}".toList = some unit ∧
      ∀ t ∈ (declarationsOf "A.java" "class A {}".toList unit).types, t.name = "A" := by
    decide +kernel
  have hname (q : String) (hq : "A" ≠ q) :
      ∀ t ∈ (declarationsOf "A.java" "class A {}".toList unit).types, t.name ≠ q :=
    fun t ht h => hq ((hall t ht).symm.trans h)
  exact ⟨unit, hunit,
    ⟨hname "A$B" (by decide),
      foundBehind_of_undeclared .default files [] roots [] hunit "A.java"
        (hname "A$B" (by decide))⟩,
    hname "C" (by decide),
    foundBehind_of_undeclared .default files [] roots [] hunit "A.java" (hname "C" (by decide))⟩

/-- An older copy of the file has a member type that the unit does not declare, and it is found. -/
theorem contains_of_older_copy :
    let older : List UInt8 :=
      [99, 108, 97, 115, 115, 32, 65, 32, 123, 32, 115, 116, 97, 116, 105, 99,
      32, 99, 108, 97, 115, 115, 32, 66, 32, 123, 125, 32, 125]
    let files : FileTree :=
      { entries := [(["s"], .directory), (["s", "A.java"], .file (.bytes older))] }
    let env := build .default files [] ["s"]
    (parse? "class A {}".toList).any fun unit =>
      let types := (declarationsOf "A.java" "class A {}".toList unit).types
      let index := overlay types (env.index files)
      types.map TypeInfo.name == ["A"] && index.contains "A$B" &&
        (index.info "A$B").any fun info => info.name == "A$B" := by
  decide +kernel

end

end Xref.Environment
