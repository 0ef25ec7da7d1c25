import Xref.Proofs.Declaration.Origin
import Xref.Proofs.Environment.Reading
import Xref.Proofs.Files.Spelling
import Xref.Proofs.Reference.Enumeration

/-!
# Environments of respelled paths

If paths are spelled in another way and lead to the same, the environments have entries of the same
names in the same order, and descriptions differ in nothing but the path from which they come. No
reference shows that path, so analyses have the same results.
-/
open List Option

namespace Xref.Environment

open ClassFile Declaration Files Java Reference Resolve Syntax
open Text

section

variable {α : Type} {V : α → α → Prop}

def EntryRel (V : α → α → Prop) (e e' : String × α) : Prop := e'.1 = e.1 ∧ V e.2 e'.2

lemma lookup_rel {l l' : List (String × α)} (h : List.Forall₂ (EntryRel V) l l') (q : String) :
    Option.Rel V (l.lookup q) (l'.lookup q) := by
  induction h with
  | nil => exact .none
  | @cons e e' l l' he _ ih =>
    obtain ⟨name, value⟩ := e
    obtain ⟨name', value'⟩ := e'
    obtain ⟨rfl, hvalue⟩ : name' = name ∧ V value value' := he
    rw [lookup_cons, lookup_cons]
    split
    · exact .some hvalue
    · exact ih

lemma keys_rel {l l' : List (String × α)} (h : List.Forall₂ (EntryRel V) l l') :
    l'.map Prod.fst = l.map Prod.fst := by
  induction h with
  | nil => rfl
  | cons he _ ih => rw [map_cons, map_cons, he.1, ih]

lemma isSome_rel {o o' : Option α} (h : Option.Rel V o o') : o'.isSome = o.isSome := by
  cases h <;> rfl

lemma addFirst_rel {table table' : List (String × α)}
    (h : List.Forall₂ (EntryRel V) table table') {e e' : String × α} (he : EntryRel V e e') :
    List.Forall₂ (EntryRel V) (addFirst table e.1 e.2) (addFirst table' e'.1 e'.2) := by
  unfold addFirst
  rw [he.1, isSome_rel (lookup_rel h e.1)]
  split
  · exact h
  · exact rel_append h (.cons ⟨rfl, he.2⟩ .nil)

lemma firsts_rel {l l' : List (String × α)} (h : List.Forall₂ (EntryRel V) l l') :
    List.Forall₂ (EntryRel V) (firsts l) (firsts l') := by
  have hextend {table table' : List (String × α)}
    (htable : List.Forall₂ (EntryRel V) table table') :
      List.Forall₂ (EntryRel V) (extend table l) (extend table' l') := by
    induction h generalizing table table' with
    | nil => exact htable
    | cons he _ ih => exact ih (addFirst_rel htable he)
  exact hextend .nil

end

section

variable {config : Config} {files : FileTree} {path path' : String}

/-- Spellings of a path that lead to the same. -/
structure Spells (files : FileTree) (path path' : String) : Prop where
  components : Path.components path' = Path.components path
  find : files.find path' = files.find path

def SameType (t t' : TypeInfo) : Prop := ∃ origin, t' = { t with origin := origin }

/-- Places whose classes have the same descriptions, but for the path. -/
def SameClass (files : FileTree) (place place' : ClassPlace) : Prop :=
  SameButOrigin (place.load? files) (place'.load? files)

lemma Spells.join {root root' : String} (h : Spells files root root') (name : String) :
    Spells files (Path.join root name) (Path.join root' name) :=
  ⟨Path.components_join_eq h.components name, FileTree.find_join h.components name⟩

section

variable (h : Spells files path path')
include h

lemma Spells.read : files.read path' = files.read path := by simp only [FileTree.read, h.find]

lemma Spells.readText : files.readText path' = files.readText path := by
  simp only [FileTree.readText, h.read]

lemma Spells.isNested : Libraries.isNested config path' = Libraries.isNested config path := by
  simp only [Libraries.isNested, Config.isArchive, Path.extension?, Path.fileName?, h.components]

lemma walk_rel :
    List.Forall₂ (fun found found' => Spells files found.1 found'.1 ∧ found'.2 = found.2)
      (files.walk path) (files.walk path') := by
  unfold FileTree.walk
  rw [h.find]
  split
  · rw [forall₂_map_left_iff, forall₂_map_right_iff, forall₂_same]
    exact fun p _ => ⟨h.join _, rfl⟩
  · exact .nil

lemma entry_eq : files.isFile path' = files.isFile path ∧
    files.isDirectory path' = files.isDirectory path := by
  simp only [FileTree.isFile, FileTree.isDirectory, h.find, and_self]

lemma filesOf_rel : List.Forall₂ (Spells files) (Sources.filesOf config files path)
    (Sources.filesOf config files path') := by
  unfold Sources.filesOf
  rw [(entry_eq h).1, (entry_eq h).2]
  split
  · exact .cons h .nil
  · split
    · refine rel_map (fun _ _ hfound => hfound.1) (rel_filter ?_ (walk_rel h))
      rintro ⟨p, relative⟩ ⟨p', _⟩ ⟨hp, rfl⟩
      simp only [Sources.fits, hp.read]
    · exact .nil

lemma entriesOf_rel : List.Forall₂ (EntryRel SameType) (Sources.entriesOf files path)
    (Sources.entriesOf files path') := by
  unfold Sources.entriesOf
  rw [h.readText]
  cases files.readText path with
  | error cause => exact .nil
  | ok text =>
    have htypes : Sources.typesOf path' text =
        (Sources.typesOf path text).map fun t => { t with origin := .source path' } :=
      types_of_origin { source := text.toList, origin := .source path, includeLocal := false }
        (.source path') ((aired_parseOrSalvage text.toList).twin _ .outside)
    dsimp only
    rw [htypes, List.map_map, forall₂_map_left_iff, forall₂_map_right_iff, forall₂_same]
    exact fun t _ => ⟨rfl, _, rfl⟩

lemma sources_rel : List.Forall₂ (EntryRel SameType) (Sources.entries config files path)
    (Sources.entries config files path') :=
  rel_flatMap (filesOf_rel h) fun _ _ hpath => entriesOf_rel hpath

end

def describeEntry? (archive : String) (bytes : List UInt8) : Option TypeInfo :=
  (ofBytes bytes).toOption.map fun c => c.describe archive

lemma load?_archived (files : FileTree) (archive entry : String) (bytes : List UInt8) :
    (ClassPlace.archived archive entry bytes).load? files = describeEntry? archive bytes := by
  rw [ describeEntry?, map_eq_bind]
  rfl

lemma load_file (files : FileTree) (path : String) : (ClassPlace.file path).load? files =
    match files.read path with
    | .ok (.bytes bs) => describeEntry? path bs
    | _ => none := by
  unfold ClassPlace.load? describeEntry?
  dsimp only [bind_eq_bind, bind_some]
  cases files.read path with
  | error cause => rfl
  | ok content =>
    cases content with
    | archive entries => rfl
    | bytes bs =>
      cases hclass : (ClassFile.ofBytes bs).toOption <;> simp [hclass, ClassPlace.library]

lemma sameButOrigin_describeEntry (bytes : List UInt8) (library library' : String) :
    SameButOrigin ( describeEntry? library bytes) ( describeEntry? library' bytes) := by
  unfold describeEntry?
  cases (ClassFile.ofBytes bytes).toOption with
  | none => exact .none
  | some c => exact .some (c.describe library) (.library library')

section

variable (h : Spells files path path')
include h

lemma Spells.sameClass : SameClass files (.file path) (.file path') := by
  rw [SameClass, load_file, load_file, h.read]
  split
  · exact sameButOrigin_describeEntry _ path path'
  · exact .none

lemma archived_rel : List.Forall₂ (EntryRel (SameClass files)) (Libraries.archived files path)
    (Libraries.archived files path') := by
  unfold Libraries.archived
  rw [h.read]
  cases (files.read path).toOption.bind archiveEntries? with
  | none => exact .nil
  | some entries =>
    refine rel_flatMap (forall₂_same.mpr fun e _ => rfl) fun e e' (he : e = e') => ?_
    subst he
    refine rel_map (fun name name' (hname : name = name') => ?_) (forall₂_same.mpr fun _ _ => rfl)
    refine ⟨hname.symm, ?_⟩
    rw [SameClass, load?_archived, load?_archived]
    exact sameButOrigin_describeEntry _ path path'

lemma libraries_rel :
    List.Forall₂ (EntryRel (SameClass files)) (Libraries.entries config files path)
      (Libraries.entries config files path') := by
  have hclass : List.Forall₂ (EntryRel (SameClass files))
      ((files.walk path).flatMap (Libraries.classFile config))
      ((files.walk path').flatMap (Libraries.classFile config)) := by
    refine rel_flatMap (walk_rel h) ?_
    rintro ⟨p, relative⟩ ⟨p', _⟩ ⟨hp, rfl⟩
    simp only [Libraries.classFile, hp.isNested]
    split
    · exact .nil
    · refine rel_map (fun name name' (hname : name = name') => ?_) (forall₂_same.mpr fun _ _ => rfl)
      exact ⟨hname.symm, hp.sameClass⟩
  have hnested : List.Forall₂ (Spells files) (Libraries.nested config files path)
      (Libraries.nested config files path') := by
    refine rel_filter (fun p p' (hp : Spells files p p') => ?_)
      (rel_map (fun _ _ hp => hp.1) (walk_rel h))
    simp only [hp.isNested]
  unfold Libraries.entries
  rw [(entry_eq h).1, (entry_eq h).2]
  split
  · exact rel_append hclass (rel_flatMap hnested fun _ _ hp => archived_rel hp)
  · split
    · exact archived_rel h
    · exact .nil

end

end

variable {files : FileTree} {env env' : Environment}

/-- Environments with the same entries, but for the paths from which they come. -/
structure Respelled (files : FileTree) (env env' : Environment) : Prop where
  sources : List.Forall₂ (EntryRel SameType) env.sources env'.sources
  classes : List.Forall₂ (EntryRel (SameClass files)) env.classes env'.classes

lemma respelled_build (config : Config) {libs libs' roots roots' : List String}
    (hlibs : List.Forall₂ (Spells files) libs libs')
    (hroots : List.Forall₂ (Spells files) roots roots') :
    Respelled files (build config files libs roots) (build config files libs' roots') := by
  constructor
  · rw [sources_build, sources_build]
    exact firsts_rel (rel_flatMap hroots fun _ _ h => sources_rel h)
  · rw [classes_build, classes_build]
    exact firsts_rel (rel_flatMap hlibs fun _ _ h => libraries_rel h)

lemma Respelled.similar (h : Respelled files env env') (hread : env.ReadFrom files)
    (hread' : env'.ReadFrom files) : (env.index files).Similar (env'.index files) where
  info q := by
    rw [index_info, index_info, hread.info?_eq, hread'.info?_eq]
    rcases Tree.optionRel_cases (lookup_rel h.sources q) with ⟨ht, ht'⟩ | ⟨t, _, ht, ht',
      origin, rfl⟩
    · rw [ht, ht', none_or, none_or]
      exact Tree.rel_elim (lookup_rel h.classes q) .none fun _ _ hclass => hclass
    · rw [ht, ht']
      exact .some t origin
  contains := by
    funext q
    change env'.contains q = env.contains q
    rw [contains, contains, isSome_rel (lookup_rel h.sources q),
      isSome_rel (lookup_rel h.classes q)]
  packageExists := by
    have hnames : env'.names = env.names := by
      rw [names, names, keys_rel h.sources, keys_rel h.classes]
    funext p
    change env'.packages.contains p = env.packages.contains p
    rw [packages, packages, hnames]

lemma analyzeFile_of_similar {target : String}
    (h : ∀ text unit, files.readText target = .ok text → parse? text.toList = some unit →
      (TypeIndex.overlay (declarationsOf target text.toList unit).types (env.index files)).Similar
      (TypeIndex.overlay (declarationsOf target text.toList unit).types (env'.index files))) :
    (env'.analyzeFile files target).1 = (env.analyzeFile files target).1 := by
  unfold analyzeFile
  cases htext : files.readText target with
  | error cause => rfl
  | ok text =>
    unfold analyzeText analyze?
    cases hparse : parse? text.toList with
    | none => simp [hparse]
    | some unit =>
      have hrecords := records_of_similar hparse (h text unit htext hparse)
        (declarationsOf target text.toList unit) fun _ => rfl
      simp only [hparse, map_some]
      exact congrArg Except.ok hrecords

end Xref.Environment

