import Xref.Environment.Basic
import Xref.Proofs.Environment.Table

/-!
# What paths contribute

A path contributes entries to a table and problems to the diagnostics. Both depend on the path and
on the files alone. So an environment is made of the lists of all contributions, in the order of the
paths, and the environments of longer lists of paths are unions of those of their parts.
-/
open List

namespace Xref.Environment

open ClassFile Files Java Text

/-- A loop whose steps act on a part of the state by the lists of `f` acts on it by all of them. -/
lemma view_foldl {σ τ β γ : Type} (view : σ → τ) {act : τ → List γ → τ}
    (hnil : ∀ t, act t [] = t) (happend : ∀ t l l', act t (l ++ l') = act (act t l) l')
    {step : σ → β → σ} {f : β → List γ} (hstep : ∀ s a, view (step s a) = act (view s) (f a))
    (l : List β) (s : σ) : view (l.foldl step s) = act (view s) (l.flatMap f) := by
  induction l generalizing s with
  | nil => exact (hnil _).symm
  | cons a l ih => rw [foldl_cons, ih, hstep, flatMap_cons, happend]

lemma foldl_extend {σ β α : Type} (view : σ → List (String × α)) {step : σ → β → σ}
    {f : β → List (String × α)} (hstep : ∀ s a, view (step s a) = extend (view s) (f a))
    (l : List β) (s : σ) : view (l.foldl step s) = extend (view s) (l.flatMap f) :=
  view_foldl view extend_nil extend_append hstep l s

lemma foldl_append {σ β γ : Type} (view : σ → List γ) {step : σ → β → σ} {f : β → List γ}
    (hstep : ∀ s a, view (step s a) = view s ++ f a) (l : List β) (s : σ) :
    view (l.foldl step s) = view s ++ l.flatMap f :=
  view_foldl view append_nil (fun t l l' => (append_assoc t l l').symm) hstep l s

namespace Sources

def entriesOf (files : FileTree) (path : String) : List (String × TypeInfo) :=
  match files.readText path with
  | .error _ => []
  | .ok text => (typesOf path text).map fun t => (t.name, t)

def problemsOf (files : FileTree) (path : String) : List Diagnostic :=
  match files.readText path with
  | .error cause => [⟨path, "failed to read source file: " ++ cause.message⟩]
  | .ok _ => []

def filesOf (config : Config) (files : FileTree) (root : String) : List String :=
  if files.isFile root then [root]
  else if files.isDirectory root then
    ((files.walk root).filter fun (path, relative) =>
      config.indexesSource (replaceChar '\x5c' '/' relative) && fits config files path).map Prod.fst
  else []

def entries (config : Config) (files : FileTree) (root : String) : List (String × TypeInfo) :=
  (filesOf config files root).flatMap (entriesOf files)

def problems (config : Config) (files : FileTree) (root : String) : List Diagnostic :=
  if files.contains root then (filesOf config files root).flatMap (problemsOf files)
  else [⟨root, "source path does not exist"⟩]

lemma types_addFile (files : FileTree) (s : Sources) (path : String) :
    (s.addFile files path).types = extend s.types (entriesOf files path) := by
  unfold addFile entriesOf
  cases files.readText path with
  | error cause => rfl
  | ok text => simp only [extend, foldl_map]

lemma diagnostics_addFile (files : FileTree) (s : Sources) (path : String) :
    (s.addFile files path).diagnostics = s.diagnostics ++ problemsOf files path := by
  unfold addFile problemsOf
  cases files.readText path with
  | error cause => rfl
  | ok text => exact (append_nil _).symm

section

variable (config : Config) (files : FileTree) (s : Sources) (root : String)
include config files s root

lemma addRoot_eq : s.addRoot config files root =
    if files.contains root then (filesOf config files root).foldl (addFile files) s
    else s.diagnose root "source path does not exist" := by
  unfold addRoot filesOf FileTree.contains
  by_cases hfile : files.isFile root
  · simp [hfile]
  · by_cases hdir : files.isDirectory root
    · simp only [hfile, hdir, Bool.false_eq_true, if_false, if_true, Bool.or_false,
        foldl_map, foldl_filter]
    · simp [hfile, hdir]

lemma types_addRoot :
    (s.addRoot config files root).types = extend s.types (entries config files root) := by
  rw [addRoot_eq]
  split
  · exact foldl_extend Sources.types (types_addFile files) _ s
  · next h =>
    have hnone : filesOf config files root = [] := by
      simp only [FileTree.contains, Bool.or_eq_true, not_or, Bool.not_eq_true] at h
      simp [filesOf, h]
    rw [entries, hnone]
    rfl

lemma diagnostics_addRoot :
    (s.addRoot config files root).diagnostics = s.diagnostics ++ problems config files root := by
  rw [addRoot_eq, problems]
  split
  · exact foldl_append Sources.diagnostics (diagnostics_addFile files) _ s
  · rfl

end

end Sources

namespace Libraries

def archived (files : FileTree) (path : String) : List (String × ClassPlace) :=
  match (files.read path).toOption.bind archiveEntries? with
  | none => []
  | some entries => entries.flatMap fun (entry, bytes) =>
    (entryName? entry).toList.map fun name =>
      (name, .archived path entry ((entries.reverse.lookup entry).getD bytes))

def archiveProblems (files : FileTree) (path : String) : List Diagnostic :=
  match (files.read path).toOption.bind archiveEntries? with
  | none =>
    [⟨path, "file error: failed to open archive: invalid Zip archive: Could not find EOCD (path: "
      ++
      path ++ ")"⟩]
  | some _ => []

def isNested (config : Config) (path : String) : Bool :=
  config.indexNestedArchives && config.isArchive path

def nested (config : Config) (files : FileTree) (root : String) : List String :=
  ((files.walk root).map Prod.fst).filter (isNested config)

def classFile (config : Config) : String × String → List (String × ClassPlace)
  | (path, relative) =>
    if isNested config path then []
    else (entryName? (replaceChar '\x5c' '/' relative)).toList.map fun name => (name, .file path)

def entries (config : Config) (files : FileTree) (path : String) : List (String × ClassPlace) :=
  if files.isDirectory path then
    (files.walk path).flatMap (classFile config) ++
      (nested config files path).flatMap (archived files)
  else if files.isFile path then archived files path
  else []

def problems (config : Config) (files : FileTree) (path : String) : List Diagnostic :=
  if files.isDirectory path then (nested config files path).flatMap (archiveProblems files)
  else if files.isFile path then archiveProblems files path
  else [⟨path, "library path does not exist"⟩]

lemma extend_toList (table : List (String × ClassPlace)) (name : Option String)
    (place : ClassPlace) : extend table (name.toList.map fun n => (n, place)) = match name with
      | some n => addFirst table n place
      | none => table := by
  cases name <;> rfl

lemma classes_addArchive (files : FileTree) (l : Libraries) (path : String) :
    (l.addArchive files path).classes = extend l.classes (archived files path) := by
  unfold addArchive archived
  cases (files.read path).toOption.bind archiveEntries? with
  | none => rfl
  | some entries =>
    refine foldl_extend id (fun table e => ?_) entries l.classes
    exact (extend_toList _ _ _).symm

lemma diagnostics_addArchive (files : FileTree) (l : Libraries) (path : String) :
    (l.addArchive files path).diagnostics = l.diagnostics ++ archiveProblems files path := by
  unfold addArchive archiveProblems
  cases (files.read path).toOption.bind archiveEntries? with
  | none => rfl
  | some entries => exact (append_nil _).symm

section

variable (config : Config) (files : FileTree) (l : Libraries)
include config files l

lemma classes_addDirectory (root : String) : (l.addDirectory config files root).classes =
    extend l.classes ((files.walk root).flatMap (classFile config) ++
      (nested config files root).flatMap (archived files)) := by
  rw [extend_append]
  refine (foldl_extend classes (classes_addArchive files) _ _).trans (congrArg (extend · _) ?_)
  refine foldl_extend id (fun table found => ?_) (files.walk root) l.classes
  obtain ⟨path, relative⟩ := found
  by_cases hnested : isNested config path
  · have hskip : (config.indexNestedArchives && config.isArchive path) = true := hnested
    simp [classFile, hnested, hskip]
  · have hkeep : (config.indexNestedArchives && config.isArchive path) = false :=
      Bool.eq_false_iff.2 hnested
    simp only [classFile, hnested, hkeep, Bool.false_eq_true, if_false]
    exact (extend_toList _ _ _).symm

lemma diagnostics_addDirectory (root : String) : (l.addDirectory config files root).diagnostics =
    l.diagnostics ++ (nested config files root).flatMap (archiveProblems files) :=
  foldl_append diagnostics (diagnostics_addArchive files) _ _

lemma classes_addLibrary (path : String) :
    (l.addLibrary config files path).classes = extend l.classes (entries config files path) := by
  unfold addLibrary entries
  split
  · exact classes_addDirectory config files l path
  · split
    · exact classes_addArchive files l path
    · rfl

lemma diagnostics_addLibrary (path : String) :
    (l.addLibrary config files path).diagnostics = l.diagnostics ++ problems config files path := by
  unfold addLibrary problems
  split
  · exact diagnostics_addDirectory config files l path
  · split
    · exact diagnostics_addArchive files l path
    · rfl

end

end Libraries

section

variable (config : Config) (files : FileTree)

lemma sources_build (libraries sources : List String) :
    (build config files libraries sources).sources =
      firsts (sources.flatMap (Sources.entries config files)) :=
  foldl_extend Sources.types (Sources.types_addRoot config files) sources {}

lemma classes_build (libraries sources : List String) :
    (build config files libraries sources).classes =
      firsts (libraries.flatMap (Libraries.entries config files)) :=
  foldl_extend Libraries.classes (Libraries.classes_addLibrary config files) libraries {}

lemma diagnostics_build (libraries sources : List String) :
    (build config files libraries sources).diagnostics =
      sources.flatMap (Sources.problems config files) ++
        libraries.flatMap (Libraries.problems config files) := by
  refine congrArg₂ (· ++ ·) ?_ ?_
  · exact foldl_append Sources.diagnostics (Sources.diagnostics_addRoot config files) sources {}
  · exact foldl_append Libraries.diagnostics (Libraries.diagnostics_addLibrary config files)
      libraries {}

/-- The environment `whole` of longer lists of paths is put together from those of their parts. -/
structure JoinedFrom (libs libs' roots roots' : List String) (whole first second : Environment) :
    Prop where
  classes : whole.classes = union first.classes second.classes
  sources : whole.sources = union first.sources second.sources
  diagnostics : whole.diagnostics =
    (roots ++ roots').flatMap (fun root => (build config files [] [root]).diagnostics) ++
      (libs ++ libs').flatMap fun lib => (build config files [lib] []).diagnostics
  preferred : ∀ files' q t, whole.sources.lookup q = some t → whole.info? files' q = some t
  sourceKept : ∀ files' q t, first.sources.lookup q = some t → whole.info? files' q = some t
  libraryKept : ∀ q lib, first.libraryOf? q = some lib → whole.libraryOf? q = some lib

/-- What is found first wins, and this makes environments additive: tables are unions that prefer
the first, and diagnostics follow each other. -/
theorem joinedFrom_of_append (libs libs' roots roots' : List String) :
    JoinedFrom config files libs libs' roots roots'
      (build config files (libs ++ libs') (roots ++ roots')) (build config files libs roots)
      (build config files libs' roots') := by
  have hclasses : (build config files (libs ++ libs') (roots ++ roots')).classes =
      union (build config files libs roots).classes (build config files libs' roots').classes := by
    simp only [classes_build, List.flatMap_append, firsts_append]
  have hsources : (build config files (libs ++ libs') (roots ++ roots')).sources =
      union (build config files libs roots).sources (build config files libs' roots').sources := by
    simp only [sources_build, List.flatMap_append, firsts_append]
  constructor
  case classes => exact hclasses
  case sources => exact hsources
  case diagnostics => simp [diagnostics_build]
  case preferred =>
    intro files' q t h
    rw [info?, h]
  case sourceKept =>
    intro files' q t h
    rw [info?, hsources, lookup_union, h, Option.some_or]
  case libraryKept =>
    intro q lib h
    obtain ⟨place, hplace, hlib⟩ := Option.map_eq_some_iff.1 h
    rw [libraryOf?, hclasses, lookup_union, hplace, Option.some_or, Option.map_some, hlib]

end

end Xref.Environment

