import Xref.Proofs.Environment.Contribution
import Xref.Proofs.Lookup

/-!
# Indexed types and readable types

Indexing a library notes where its classes are and reads none of them. A class is read when it is
first asked for, and what was read is kept. So being indexed and having a description agree, except
for classes that cannot be read; and a description has the name that was asked for, except for a
class whose file says another name than its path.
-/
open List Option

namespace Xref.Environment

open ClassFile Files Java Text

variable {files : FileTree} {env : Environment}
variable {config : Config} {libraries sources : List String} {q : String} {e : String × ClassPlace}
  {place : ClassPlace}

/-- What holds of an environment and is kept when a class is read for the first time holds after any
number of questions. -/
lemma settle_induction {P : Environment → Prop} (hstart : P env)
    (hstep : ∀ env name, env.isDeferred name → P env →
      P { env with loaded := (name, env.loadClass? files name) :: env.loaded })
    (consulted : List String) : P (env.settle files consulted) := by
  induction consulted generalizing env with
  | nil => exact hstart
  | cons name consulted ih =>
    rw [settle, foldl_cons]
    refine ih ?_
    split
    · next h => exact hstep env name h hstart
    · exact hstart

@[simp] lemma sources_settle (env : Environment) (files : FileTree) (consulted : List String) :
    (env.settle files consulted).sources = env.sources :=
  settle_induction (P := fun e => e.sources = env.sources) rfl (fun _ _ _ h => h) consulted

@[simp] lemma classes_settle (env : Environment) (files : FileTree) (consulted : List String) :
    (env.settle files consulted).classes = env.classes :=
  settle_induction (P := fun e => e.classes = env.classes) rfl (fun _ _ _ h => h) consulted

/-- What is kept is what reading gives. -/
def ReadFrom (files : FileTree) (env : Environment) : Prop :=
  ∀ q known, env.loaded.lookup q = some known →
    ∃ place, env.classes.lookup q = some place ∧ known = place.load? files

lemma readFrom_build (config : Config) (files : FileTree) (libraries sources : List String) :
    (build config files libraries sources).ReadFrom files :=
  fun _ _ h => by simp [build] at h

lemma ReadFrom.settle (h : env.ReadFrom files) (consulted : List String) :
    (env.settle files consulted).ReadFrom files := by
  refine settle_induction h (fun env name hdeferred h q known hq => ?_) consulted
  rw [lookup_cons] at hq
  split at hq
  · next heq =>
    obtain rfl := eq_of_beq heq
    simp only [isDeferred, Bool.and_eq_true, isNone_iff_eq_none] at hdeferred
    obtain ⟨place, hplace⟩ := isSome_iff_exists.1 hdeferred.2
    refine ⟨place, hplace, ?_⟩
    obtain rfl := some.inj hq
    rw [loadClass?, hdeferred.1.2, hplace]
    rfl
  · exact h q known hq

lemma ReadFrom.info?_eq (h : env.ReadFrom files) (q : String) : env.info? files q =
    (env.sources.lookup q).or ((env.classes.lookup q).bind fun place => place.load? files) := by
  unfold info? loadClass?
  cases env.sources.lookup q with
  | some t => rfl
  | none =>
    cases hknown : env.loaded.lookup q with
    | none => rfl
    | some known =>
      obtain ⟨place, hplace, rfl⟩ := h q known hknown
      rw [hplace]
      rfl

lemma name_of_source
    {t : TypeInfo} (h : (build config files libraries sources).sources.lookup q = some t) :
    t.name = q := by
  rw [sources_build, lookup_firsts] at h
  obtain ⟨root, -, hroot⟩ := mem_flatMap.1 (mem_of_lookup h)
  obtain ⟨path, -, hentry⟩ := mem_flatMap.1 hroot
  unfold Sources.entriesOf at hentry
  cases htext : files.readText path with
  | error cause => simp [htext] at hentry
  | ok text =>
    simp only [htext, List.mem_map] at hentry
    obtain ⟨t', -, heq⟩ := hentry
    obtain ⟨rfl, rfl⟩ := Prod.mk.inj heq
    rfl

/-- The name of the class follows from where it was found in a library. -/
def ClassPlace.Says (libraries : List String) (q : String) : ClassPlace → Prop
  | .archived _ entry _ => entryName? entry = some q
  | .file path => ∃ root ∈ libraries, ∃ relative, path = Path.join root relative ∧
      entryName? (replaceChar '\x5c' '/' relative) = some q

lemma says_of_archived {path : String} (h : e ∈ Libraries.archived files path) :
    e.2.Says libraries e.1 := by
  unfold Libraries.archived at h
  cases hentries : (files.read path).toOption.bind archiveEntries? with
  | none => simp [hentries] at h
  | some entries =>
    simp only [hentries, mem_flatMap, List.mem_map, mem_toList] at h
    obtain ⟨entry, -, name, hname, rfl⟩ := h
    exact hname

lemma says_of_classFile {root : String} (hroot : root ∈ libraries) {found : String × String}
    (hfound : found ∈ files.walk root) (h : e ∈ Libraries.classFile config found) :
    e.2.Says libraries e.1 := by
  obtain ⟨path, relative⟩ := found
  unfold Libraries.classFile at h
  dsimp only at h
  split at h
  · simp at h
  · obtain ⟨name, hname, rfl⟩ := List.mem_map.1 h
    refine ⟨root, hroot, relative, ?_, mem_toList.1 hname⟩
    unfold FileTree.walk at hfound
    split at hfound
    · obtain ⟨p, -, hp⟩ := List.mem_map.1 hfound
      obtain ⟨rfl, rfl⟩ := Prod.mk.inj hp
      rfl
    · simp at hfound

lemma origin_of_class (h : (build config files libraries sources).classes.lookup q = some place) :
    (∃ root ∈ libraries, ∃ found ∈ files.walk root,
        (q, place) ∈ Libraries.classFile config found) ∨
      ∃ archive, (q, place) ∈ Libraries.archived files archive := by
  rw [classes_build, lookup_firsts] at h
  obtain ⟨path, hpath, hentry⟩ := mem_flatMap.1 (mem_of_lookup h)
  unfold Libraries.entries at hentry
  split at hentry
  · rcases mem_append.1 hentry with hfile | hnested
    · exact .inl ⟨path, hpath, mem_flatMap.1 hfile⟩
    · obtain ⟨archive, -, harchived⟩ := mem_flatMap.1 hnested
      exact .inr ⟨archive, harchived⟩
  · split at hentry
    · exact .inr ⟨path, hentry⟩
    · simp at hentry

lemma says_of_class (h : (build config files libraries sources).classes.lookup q = some place) :
    place.Says libraries q := by
  rcases origin_of_class h with ⟨root, hroot, found, hfound, hfile⟩ | ⟨archive, harchived⟩
  · exact says_of_classFile hroot hfound hfile
  · exact says_of_archived harchived

/-- A class that counts is indexed under the name `q`, and its file is no class file. -/
def Unreadable (files : FileTree) (env : Environment) (q : String) : Prop :=
  env.sources.lookup q = none ∧
    ∃ place, env.classes.lookup q = some place ∧ place.load? files = none

/-- A class that counts is indexed under the name `q`, and its file says another name. -/
def Misplaced (files : FileTree) (env : Environment) (q name : String) : Prop :=
  env.sources.lookup q = none ∧ ∃ place info, env.classes.lookup q = some place ∧
    place.load? files = some info ∧ info.name = name ∧ name ≠ q

/-- What is indexed under the name `q` and what is known of it, if `libraries` are the paths of the
libraries. -/
structure IndexedAs (libraries : List String) (files : FileTree) (env : Environment) (q : String) :
    Prop where
  contains_iff : env.contains q ↔ (env.info? files q).isSome ∨ env.Unreadable files q
  unreadable : env.Unreadable files q → env.info? files q = none
  name : ∀ info, env.info? files q = some info → info.name = q ∨ env.Misplaced files q info.name
  misplaced : ∀ name, env.Misplaced files q name → ∃ info, env.info? files q = some info ∧
    info.name = name
  source : ∀ info, env.sources.lookup q = some info → env.info? files q = some info ∧ info.name = q
  placed : ∀ place, env.classes.lookup q = some place → place.Says libraries q

/-- Whatever paths an environment is built from and whatever has been asked since, a name is indexed
exactly if it has a description, and this is the description of the type of that name, but for
classes that cannot be read or are misplaced. -/
theorem indexedAs_of_build (config : Config) (files : FileTree)
    (libraries sources consulted : List String) (q : String) :
    ((build config files libraries sources).settle files consulted).IndexedAs libraries
    files q := by
  set env := (build config files libraries sources).settle files consulted with henv
  have hinfo := ((readFrom_build config files libraries sources).settle consulted).info?_eq q
  rw [← henv] at hinfo
  have hname : ∀ t, env.sources.lookup q = some t → t.name = q := by
    intro t ht
    rw [henv, sources_settle] at ht
    exact name_of_source ht
  constructor
  case contains_iff =>
    rw [hinfo, contains, Unreadable]
    cases env.sources.lookup q with
    | some t => simp
    | none =>
      cases env.classes.lookup q with
      | none => simp
      | some place => cases hload : place.load? files <;> simp [hload]
  case unreadable =>
    rintro ⟨hsource, place, hplace, hload⟩
    rw [hinfo, hsource, hplace]
    exact hload
  case name =>
    intro info h
    rw [hinfo] at h
    cases hsource : env.sources.lookup q with
    | some t =>
      rw [hsource] at h
      obtain rfl : t = info := Option.some.inj h
      exact .inl (hname t hsource)
    | none =>
      rw [hsource, Option.none_or] at h
      obtain ⟨place, hplace, hload⟩ := Option.bind_eq_some_iff.1 h
      by_cases heq : info.name = q
      · exact .inl heq
      · exact .inr ⟨hsource, place, info, hplace, hload, rfl, heq⟩
  case misplaced =>
    rintro name ⟨hsource, place, info, hplace, hload, hname, -⟩
    refine ⟨info, ?_, hname⟩
    rw [hinfo, hsource, hplace]
    exact hload
  case source =>
    intro info h
    rw [hinfo, h]
    exact ⟨rfl, hname info h⟩
  case placed =>
    intro place h
    rw [henv, classes_settle] at h
    exact says_of_class h

/-- In this archive the file of `A` is no class file, and that of `B` holds the class `C`. -/
theorem info_of_unreadable_and_misplaced_classes :
    let bytes : List UInt8 :=
      [0xCA, 0xFE, 0xBA, 0xBE, 0, 0, 0, 0x34, 0, 3, 1, 0, 1, 0x43, 7, 0, 1, 0,
      0x21, 0, 2, 0, 0, 0, 0, 0, 0, 0, 0, 0, 0]
    let files : FileTree :=
      { entries := [(["l.jar"], .file (.archive [("A.class", [0xCA]), ("B.class", bytes)]))] }
    let env := build .default files ["l.jar"] []
    (env.contains "A" ∧ env.info? files "A" = none) ∧
      (env.info? files "B").map TypeInfo.name = some "C" := by
  decide +kernel

end Xref.Environment
