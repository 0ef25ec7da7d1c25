import Xref.Proofs.Environment.Overlay
import Xref.Proofs.Environment.Packages
import Xref.Proofs.Environment.Respelling
import Xref.Proofs.Files.Removal

/-!
# The file that is analysed

A file that is analysed may be among the sources as well. What the index has of it are types of the
unit, which stand in front of the index anyway. So an index in which the file is missing is as good:
what other files declare under other names is found in both, the first of several as before.
-/
open List Option

namespace Xref

open Declaration Environment Files Java Reference Resolve Syntax FileTree TypeIndex
open Text

namespace Files.Loses

variable {α : Type} {P : α → Prop} {l l' : List α}

lemma subset (h : Loses P l l') : l' ⊆ l := by
  induction h with
  | nil => exact List.Subset.refl _
  | keep a _ ih => exact cons_subset_cons a ih
  | lose _ _ ih => exact subset_cons_of_subset _ ih

lemma mem_or (h : Loses P l l') {a : α} (ha : a ∈ l) : a ∈ l' ∨ P a := by
  induction h with
  | nil => cases ha
  | keep b _ ih =>
    rcases mem_cons.1 ha with rfl | ha
    · exact .inl mem_cons_self
    · exact (ih ha).imp_left (mem_cons_of_mem b)
  | lose hb _ ih =>
    rcases mem_cons.1 ha with rfl | ha
    · exact .inr hb
    · exact ih ha

lemma lookup {P : String × α → Prop} {l l' : List (String × α)} (h : Loses P l l') {q : String}
    (hq : ∀ e, P e → q ≠ e.1) : l'.lookup q = l.lookup q := by
  induction h with
  | nil => rfl
  | keep e _ ih =>
    obtain ⟨name, value⟩ := e
    rw [lookup_cons, lookup_cons, ih]
  | @lose e he _ _ _ ih => rw [lookup_cons_of_ne (hq e he), ih]

end Files.Loses

namespace Environment

namespace Sources

section

variable {config : Config} {files : FileTree} {path : String}

def passed (config : Config) (files : FileTree) (found : String × String) :
    List (String × TypeInfo) :=
  if config.indexesSource (replaceChar '\x5c' '/' found.2) && fits config files found.1 then
    entriesOf files found.1
  else []

lemma entries_eq (config : Config) (files : FileTree) (root : String) : entries config files root =
    if files.isFile root then entriesOf files root
    else (files.walk root).flatMap (passed config files) := by
  unfold entries filesOf
  split
  · simp
  · split
    · have hfilter (found : List (String × String)) :
          ((found.filter fun f => config.indexesSource (replaceChar '\x5c' '/' f.2) &&
            fits config files f.1).map Prod.fst).flatMap (entriesOf files) =
          found.flatMap (passed config files) := by
        induction found with
        | nil => rfl
        | cons f found ih =>
          rw [flatMap_cons, filter_cons, passed]
          split
          · rw [map_cons, flatMap_cons, ih]
          · exact ih
      exact hfilter _
    · next hdirectory =>
      have hwalk : files.walk root = [] := by
        unfold walk
        unfold isDirectory at hdirectory
        split
        · next hfind => simp [hfind] at hdirectory
        · rfl
      rw [hwalk]
      rfl

lemma entriesOf_of_error {cause : FileError} (h : files.find path = .error cause) :
    entriesOf files path = [] := by
  simp [entriesOf, FileTree.readText, FileTree.read, h, bind, Except.bind]

lemma entriesOf_of_read {files' : FileTree} (h : files'.read path = files.read path) :
    entriesOf files' path = entriesOf files path := by
  simp only [entriesOf, readText, h]

lemma passed_of_entriesOf {found : String × String} (h : entriesOf files found.1 = []) :
    passed config files found = [] := by
  unfold passed
  split
  · exact h
  · rfl

lemma passed_subset (config : Config) (files : FileTree) (found : String × String) :
    passed config files found ⊆ entriesOf files found.1 := by
  unfold passed
  split
  · exact List.Subset.refl _
  · exact nil_subset _

variable {place : List String} {content : Content} {Q : String × TypeInfo → Prop}
  (hfile : files.at? place = some (.file content)) (hproper : ∀ n ∈ place, isProper n)
  (hown : ∀ path, files.find path = .ok (place, .file content) → ∀ e ∈ entriesOf files path, Q e)

include hfile hown

lemma passed_loses (found : String × String) :
    Loses Q (passed config files found) (passed config (files.erase place) found) := by
  generalize hbefore : files.find found.1 = before
  generalize hafter : (files.erase place).find found.1 = after
  cases hbefore ▸ hafter ▸ FileTree.find_erase hfile found.1 with
  | same =>
    have hread : (files.erase place).read found.1 = files.read found.1 := by
      simp only [FileTree.read, hbefore, hafter]
    have hfits : fits config (files.erase place) found.1 = fits config files found.1 := by
      simp only [fits, hread]
    have hsame : passed config (files.erase place) found = passed config files found := by
      simp only [passed, hfits, entriesOf_of_read hread]
    rw [hsame]
    exact .refl _ _
  | lost =>
    rw [passed_of_entriesOf (entriesOf_of_error hafter)]
    exact .all fun e he => hown found.1 hbefore e (passed_subset config files found he)
  | failed =>
    rw [passed_of_entriesOf (entriesOf_of_error hbefore),
      passed_of_entriesOf (entriesOf_of_error hafter)]
    exact .nil

include hproper

lemma entries_loses (config : Config) (root : String) :
    Loses Q (entries config files root) (entries config (files.erase place) root) := by
  have hwalk : Loses Q ((files.walk root).flatMap (passed config files))
      (((files.erase place).walk root).flatMap (passed config (files.erase place))) := by
    refine (FileTree.walk_erase hfile hproper root).flatMap (passed_loses hfile hown)
      fun found hlost e he => ?_
    have he := passed_subset config files found he
    rcases hlost with hfound | ⟨cause, hfound⟩
    · exact hown found.1 hfound e he
    · rw [entriesOf_of_error hfound] at he
      cases he
  rw [entries_eq, entries_eq]
  generalize hbefore : files.find root = before
  generalize hafter : (files.erase place).find root = after
  cases hbefore ▸ hafter ▸ FileTree.find_erase hfile root with
  | same =>
    have hisFile : (files.erase place).isFile root = files.isFile root := by
      simp only [FileTree.isFile, hbefore, hafter]
    have hread : (files.erase place).read root = files.read root := by
      simp only [FileTree.read, hbefore, hafter]
    rw [hisFile, entriesOf_of_read hread]
    split
    · exact .refl _ _
    · exact hwalk
  | lost =>
    have hnone : (files.erase place).walk root = [] := by simp [FileTree.walk, hafter]
    rw [if_pos (by simp [FileTree.isFile, hbefore]), if_neg (by simp [FileTree.isFile, hafter]),
      hnone]
    exact .all (hown root hbefore)
  | failed =>
    rw [if_neg (by simp [FileTree.isFile, hbefore]), if_neg (by simp [FileTree.isFile, hafter])]
    exact hwalk

end

end Sources

section

variable (config : Config) (files : FileTree)
variable {text : String} {unit : Tree}

/-- The environment of some libraries and sources in which one file is no source. -/
def buildWithout (target : String) (libs roots : List String) : Environment :=
  let indexed := build config (files.remove target) [] roots
  { build config files libs [] with
    sources := indexed.sources
    sourceFiles := indexed.sourceFiles
    diagnostics := indexed.diagnostics ++ (build config files libs []).diagnostics }

/-- An entry under the name of a type of the unit, whose package that name tells. -/
def IsOwn (types : List TypeInfo) (e : String × TypeInfo) : Prop :=
  ∃ t ∈ types, t.name = e.1 ∧ InPackage t.package t.name t.package

variable {config files} {target : String}

lemma isOwn_of_copy (hparse : parse? text.toList = some unit)
    (label path : String) {t : TypeInfo} (ht : t ∈ Sources.typesOf path text) :
    IsOwn (declarationsOf label text.toList unit).types (t.name, t) := by
  obtain ⟨finds, outside, hfinds, htypes⟩ := exists_typesOf hparse label path
  rw [htypes] at ht
  obtain ⟨t', ht', rfl⟩ := List.mem_map.1 ht
  have hhoused := hfinds.housed t' ht'
  refine ⟨t', ?_, rfl, ?_⟩
  · rw [hfinds.seen] at ht'
    rw [hfinds.types]
    exact (filter_sublist.map _).subset ht'
  · rw [hhoused.home]
    exact ⟨hhoused.name, rfl⟩

lemma sources_loses (hread : files.readText target = .ok text)
    (hparse : parse? text.toList = some unit) (root : String) :
    Loses (IsOwn (declarationsOf target text.toList unit).types) (Sources.entries config files root)
      (Sources.entries config (files.remove target) root) := by
  cases hfind : files.find target with
  | error cause => simp [FileTree.readText, FileTree.read, hfind, bind, Except.bind] at hread
  | ok found =>
    obtain ⟨place, entry⟩ := found
    cases entry with
    | directory => simp [FileTree.readText, FileTree.read, hfind, bind, Except.bind] at hread
    | file content =>
      have hremove : files.remove target = files.erase place := by simp [FileTree.remove, hfind]
      rw [hremove]
      refine Sources.entries_loses (FileTree.at?_of_find hfind) (FileTree.isProper_of_find hfind)
        (fun path hpath e he => ?_) config root
      have hsame : files.readText path = .ok text := by
        rw [← hread]
        simp only [FileTree.readText, FileTree.read, hpath, hfind]
      obtain ⟨name, t⟩ := e
      obtain ⟨text', htext', ht, rfl⟩ := (mem_entriesOf_iff files).1 he
      obtain rfl : text = text' := Except.ok.inj (hsame.symm.trans htext')
      exact isOwn_of_copy hparse target path ht

lemma similar_buildWithout (hread : files.readText target = .ok text)
    (hparse : parse? text.toList = some unit) (libs roots consulted consulted' : List String) :
    (overlay (declarationsOf target text.toList unit).types
        (((build config files libs roots).settle files consulted).index files)).Similar
      (.overlay (declarationsOf target text.toList unit).types
        (((buildWithout config files target libs roots).settle files consulted').index files)) := by
  set types := (declarationsOf target text.toList unit).types with htypes
  set env := (build config files libs roots).settle files consulted with henv
  set env' := (buildWithout config files target libs roots).settle files consulted' with henv'
  have hloses : Loses (IsOwn types) (roots.flatMap (Sources.entries config files))
      (roots.flatMap (Sources.entries config (files.remove target))) :=
    (Loses.refl (fun _ => False) roots).flatMap (fun root => sources_loses hread hparse root)
      fun _ h => h.elim
  have hsources (q : String) : env.sources.lookup q =
      (roots.flatMap (Sources.entries config files)).lookup q := by
    rw [henv, sources_settle, sources_build, lookup_firsts]
  have hsources' (q : String) : env'.sources.lookup q =
      (roots.flatMap (Sources.entries config (files.remove target))).lookup q := by
    rw [henv', sources_settle, buildWithout, sources_build, lookup_firsts]
  have hclasses : env'.classes = env.classes := by
    rw [henv, henv', classes_settle, classes_settle, buildWithout, classes_build, classes_build]
  -- names that the unit does not have
  have hlookup (q : String) (hq : (ofTypes types).contains q = false) :
      env'.sources.lookup q = env.sources.lookup q := by
    rw [hsources, hsources']
    refine hloses.lookup fun e he hqe => ?_
    obtain ⟨t, ht, hname, -⟩ := he
    have hne : ∀ t ∈ types, t.name ≠ q := by simpa [ofTypes] using hq
    exact hne t ht (hname.trans hqe.symm)
  have hcontains (q : String) (hq : (ofTypes types).contains q = false) :
      env'.contains q = env.contains q := by
    rw [contains, contains, hlookup q hq, hclasses]
  have hreadEnv : env.ReadFrom files := (readFrom_build config files libs roots).settle consulted
  have hreadEnv' : env'.ReadFrom files :=
    ReadFrom.settle (fun _ _ h => by simp [buildWithout, build] at h) consulted'
  constructor
  case info =>
    intro q
    simp only [overlay, index_info, hreadEnv.info?_eq, hreadEnv'.info?_eq, hclasses]
    cases hq : (ofTypes types).contains q with
    | true =>
      have hsome : ((ofTypes types).info q).isSome := by simpa [ofTypes] using hq
      obtain ⟨t, ht⟩ := isSome_iff_exists.1 hsome
      rw [ht]
      exact .refl _
    | false =>
      rw [hlookup q hq]
      exact .refl _
  case contains =>
    funext q
    change ((ofTypes types).contains q || env'.contains q) =
      ((ofTypes types).contains q || env.contains q)
    cases hq : (ofTypes types).contains q with
    | true => rfl
    | false => rw [hcontains q hq]
  case packageExists =>
    funext p
    change ((ofTypes types).packageExists p || env'.packages.contains p) =
      ((ofTypes types).packageExists p || env.packages.contains p)
    cases hp : (ofTypes types).packageExists p with
    | true => rfl
    | false =>
      have hown : ∀ t ∈ types, p ∉ packagePrefixes t.package := by simpa [ofTypes] using hp
      rw [Bool.false_or, Bool.false_or, Bool.eq_iff_iff, contains_iff_mem,
        contains_iff_mem, mem_packages_iff, mem_packages_iff]
      refine exists_congr fun q => and_congr_left ?_
      rintro ⟨home, hhome, hprefix⟩
      simp only [contains, hclasses, hsources, hsources', Bool.or_eq_true, isSome_lookup_iff]
      refine or_congr_left ⟨Exists.imp fun t ht => hloses.subset ht, ?_⟩
      rintro ⟨t, ht⟩
      refine (hloses.mem_or ht).elim (fun h => ⟨t, h⟩) ?_
      rintro ⟨t', ht', rfl, hhoused⟩
      exact absurd (hhoused.eq_of_hasHome hhome ▸ hprefix) (hown t' ht')

/-- Whether the file that is analysed is indexed as a source does not matter for the result: the
index has of a unit exactly those of its types that are not hidden in code, declared in the same
way, and behind the unit itself they are not seen. -/
theorem analyzeFile_buildWithout (config : Config) (files : FileTree) (target : String)
    (libs roots consulted consulted' : List String) :
    (((buildWithout config files target libs roots).settle files consulted').analyzeFile files
        target).1 =
      (((build config files libs roots).settle files consulted).analyzeFile files target).1 ∧
    ∀ source unit origin origin', parse? source = some unit → ∃ finds,
      Exposes (.ofUnit ⟨source, origin, true⟩ unit) source unit (seen finds) finds ∧
      (Declarations.ofUnit ⟨source, origin', false⟩ unit).types =
        (seen finds).map fun t => { t with origin := origin' } := by
  constructor
  · exact analyzeFile_of_similar fun text unit hread hparse =>
      similar_buildWithout hread hparse libs roots consulted consulted'
  · intro source unit origin origin' hparse
    obtain ⟨finds, hfinds⟩ := exists_finds hparse ⟨source, origin, true⟩ rfl rfl
    have hthin := types_of_origin (thinned ⟨source, origin, true⟩) origin'
      ((placed_of_parse hparse).1.twin _ .outside)
    rw [hfinds.seen] at hthin
    exact ⟨finds, { hfinds with seen := rfl, housed := hfinds.seen ▸ hfinds.housed }, hthin⟩

end

end Environment

end Xref
