import Xref.Config
import Xref.Proofs.Files.Changing
import Xref.Proofs.Json.Reading
import Xref.Proofs.Text.Utf8

/-!
# Saving configurations

A configuration that was saved is loaded again as it was. Saving touches no file but the one at its
path and the temporary file beside it, which stays behind if it cannot take the place of the path.
-/
namespace Xref.Config

open Files Text Json Path FileTree

variable {path other : String} {files written : FileTree} {c : Config} {bs : List UInt8}
  {place : List String} {content : Content}

/-- The numbers have 32 and 64 bits. -/
structure InRange (c : Config) : Prop where
  version : c.version < Json.bound32
  maxFileSize : c.maxFileSize < Json.bound64

lemma plain_strings (ss : List String) : (strings ss).Plain := by
  refine .array fun j hj => ?_
  obtain ⟨s, _, rfl⟩ := List.mem_map.mp hj
  exact .string s

lemma strings?_strings (ss : List String) : (strings ss).strings? = some ss := by
  have hmap : (ss.map string).mapM string? = some ss := by
    induction ss with
    | nil => rfl
    | cons s ss ih => simp [List.mapM_cons, string?, ih]
  simp [strings?, strings, array?, hmap]

lemma plain_toJson (c : Config) : c.toJson.Plain := by
  refine .object ?_
  simp [Json.Plain.nat, Json.Plain.bool, plain_strings]

lemma InRange.ofJson?_toJson (h : c.InRange) : ofJson? c.toJson = some c := by
  have hfields : fieldValues c.toJson = some
      [some (.ofNat c.version), some (.strings c.sourceInclude), some (.strings c.sourceExclude),
       some (.strings c.libraryExtensions), some (.ofNat c.maxFileSize),
       some (.bool c.indexNestedArchives)] := by
    simp [fieldValues, fieldNames, toJson]
  simp [ofJson?, hfields, valueOr, nat?_ofNat h.version, nat?_ofNat h.maxFileSize,
    strings?_strings, bool?]

/-- The tree in which the directories around a path have been made. -/
def prepared (files : FileTree) (path : String) : FileTree :=
  (files.makeDirectories (path.length + 1)
    (((Path.parent? path).filter fun p => !p.isEmpty).getD "")).1

inductive Comes (files : FileTree) (path : String) (c : Config) :
    FileTree × Except Error Unit → Prop where
  | directory (around : String) (cause : FileError) :
    Comes files path c (prepared files path, .error (.directory around cause))
  | temporary (cause : FileError) : Comes files path c
      (prepared files path, .error (.temporary (Path.withExtension path "tmp") cause))
  | rename {written : FileTree} {cause : FileError}
      (hwrite : (prepared files path).write (Path.withExtension path "tmp")
        (encodeUtf8 (Json.pretty c.toJson)) = .ok written)
      (hrename : written.rename (Path.withExtension path "tmp") path = .error cause) :
      Comes files path c (written, .error (.rename (Path.withExtension path "tmp") path cause))
  | done {written renamed : FileTree}
      (hwrite : (prepared files path).write (Path.withExtension path "tmp")
        (encodeUtf8 (Json.pretty c.toJson)) = .ok written)
      (hrename : written.rename (Path.withExtension path "tmp") path = .ok renamed) :
      Comes files path c (renamed, .ok ())

lemma comes_of_save (files : FileTree) (path : String) (c : Config) :
    Comes files path c (save files path c) := by
  have hprepared : prepared files path = (files.makeDirectories (path.length + 1)
    (((parent? path).filter fun p => !p.isEmpty).getD "")).1 := rfl
  unfold save
  dsimp only
  split
  next ready cause hmake =>
    rw [hmake] at hprepared
    obtain rfl : prepared files path = ready := hprepared
    exact .directory _ cause
  next ready hmake =>
    rw [hmake] at hprepared
    obtain rfl : prepared files path = ready := hprepared
    split
    next cause hwrite => exact .temporary cause
    next written hwrite =>
      split
      next cause hrename => exact .rename hwrite hrename
      next renamed hrename => exact .done hwrite hrename

lemma exists_written_renamed {ready renamed : FileTree} {temporary : String}
    (hwrite : ready.write temporary bs = .ok written)
    (hrename : written.rename temporary path = .ok renamed) :
    ∃ place target, FileTree.Written ready written temporary bs place ∧
      FileTree.Renamed written renamed temporary path place target (.bytes bs) := by
  obtain ⟨place, hwritten⟩ := exists_written hwrite
  obtain ⟨source, target, content, hrenamed⟩ := exists_renamed hrename
  have hsame := hrenamed.source
  rw [hwritten.found] at hsame
  cases hsame
  exact ⟨place, target, hwritten, hrenamed⟩

/-- A configuration that was saved is loaded again. -/
theorem load_of_save {files files' : FileTree} {path : String} {c : Config} (hc : c.InRange)
    (h : save files path c = (files', .ok ())) : load files' path = .ok c := by
  have hcomes := comes_of_save files path c
  rw [h] at hcomes
  cases hcomes with
  | @done written _ hwrite hrename =>
    obtain ⟨place, target, _, hrenamed⟩ := exists_written_renamed hwrite hrename
    have hread : files'.readText path = .ok (Json.pretty c.toJson) := by
      simp [FileTree.readText, FileTree.read, hrenamed.target, decodeUtf8?_encodeUtf8, bind,
        Except.bind]
    have hcontains : files'.contains path := by
      simp [FileTree.contains, FileTree.isFile, hrenamed.target]
    simp [load, hcontains, hread, (plain_toJson c).read?_pretty, hc.ofJson?_toJson]

/-- Texts with quotation marks, backslashes and line ends are loaded as they were saved. -/
theorem load_of_save_escaped :
    let c : Config := { default with sourceInclude := ["\x22\x5c\n"], maxFileSize := 2 ^ 64 - 1 }
    c.InRange ∧ ∃ files', save {} "d/x.json" c = (files', .ok ()) ∧
      load files' "d/x.json" = .ok c := by
  intro c
  have hc : c.InRange := ⟨by decide, by decide⟩
  have hsaved : (save {} "d/x.json" c).2.isOk := by decide +kernel
  cases h : save {} "d/x.json" c with
  | mk files' result =>
    rw [h] at hsaved
    cases result with
    | error e => cases hsaved
    | ok =>
      exact ⟨hc, files', rfl, load_of_save hc h⟩

structure Saves (files : FileTree) (path : String) (c : Config)
    (saved : FileTree × Except Error Unit) : Prop where
  done : saved.2.isOk → ∃ place,
    saved.1.find path = .ok (place, .file (.bytes (encodeUtf8 (Json.pretty c.toJson))))
  /-- Each file stays that is neither at the path nor where the temporary file is written. -/
  others : ∀ other place content, files.find other = .ok (place, .file content) →
    (∀ old, (prepared files path).find (Path.withExtension path "tmp") ≠ .ok (place, old)) →
    (∀ new, saved.1.find path ≠ .ok (place, new)) → saved.1.find other = .ok (place, .file content)
  /-- There is no new file but the one at the path, or the temporary file if it cannot be renamed.
  -/
  fresh : ∀ place content, saved.1.at? place = some (.file content) →
    files.at? place = some (.file content) ∨ saved.1.find path = .ok (place, .file content) ∨
      (∃ cause, saved.2 = .error (.rename (Path.withExtension path "tmp") path cause)) ∧
        saved.1.find (Path.withExtension path "tmp") = .ok (place, .file content)
  /-- After an error the file at the path is what it was. -/
  target : saved.2.isOk = false → ∀ place content, files.find path = .ok (place, .file content) →
    saved.1.find path = .ok (place, .file content)
  /-- After an error there are only more directories, unless the temporary file stays behind. -/
  failed : ∀ e, saved.2 = .error e → files.Widens saved.1 ∨
    ∃ cause place content, e = .rename (Path.withExtension path "tmp") path cause ∧
      saved.1.find (Path.withExtension path "tmp") = .ok (place, .file content)

lemma widens_prepared (files : FileTree) (path : String) : files.Widens (prepared files path) :=
  files.widens_makeDirectories _ _

lemma find_prepared (path : String) (h : files.find other = .ok (place, .file content)) :
    (prepared files path).find other = .ok (place, .file content) :=
  (widens_prepared files path).keeps.find h ((widens_prepared files path).kept _ _ (at?_of_find h))

lemma ne_of_written {p : List String}
    (hwritten : FileTree.Written (prepared files path) written (withExtension path "tmp") bs place)
    (hfind : files.find other = .ok (p, .file content))
    (htemporary : ∀ old, (prepared files path).find (withExtension path "tmp") ≠ .ok (p, old)) :
    p ≠ place := by
  rintro rfl
  rcases hwritten.before with ⟨old, hfind⟩ | hnone
  · exact htemporary _ hfind
  · have hat := at?_of_find (find_prepared path hfind)
    rw [hnone] at hat
    cases hat

lemma saves_of_widens {files' : FileTree} {e : Error} (h : files.Widens files') :
    Saves files path c (files', .error e) where
  done hok := by cases hok
  others other place content hfind _ _ := h.keeps.find hfind (h.kept _ _ (at?_of_find hfind))
  fresh place content hat := .inl (h.fresh place content hat)
  target _ place content hfind := h.keeps.find hfind (h.kept _ _ (at?_of_find hfind))
  failed _ _ := .inl h

section

variable {p : List String}
  (hwritten : FileTree.Written (prepared files path) written (Path.withExtension path "tmp")
    (encodeUtf8 (Json.pretty c.toJson)) place)

include hwritten

lemma find_written {other : String} (hfind : files.find other = .ok (p, .file content))
    (hp : p ≠ place) : written.find other = .ok (p, .file content) := by
  have hready := find_prepared path hfind
  exact hwritten.keeps.find hready (by rw [hwritten.others p hp, at?_of_find hready])

lemma at?_of_written (hp : p ≠ place) (hat : written.at? p = some (.file content)) :
    files.at? p = some (.file content) := by
  rw [hwritten.others p hp] at hat
  exact (widens_prepared files path).fresh p content hat

lemma saves_of_written {cause : FileError}
    (hrename : written.rename (withExtension path "tmp") path = .error cause) :
    Saves files path c (written, .error (.rename (withExtension path "tmp") path cause)) where
  done hok := by cases hok
  others other p content hfind htemporary _ :=
    find_written hwritten hfind (ne_of_written hwritten hfind htemporary)
  fresh p content hat := by
    by_cases hp : p = place
    · subst hp
      have hfound := at?_of_find hwritten.found
      obtain rfl := Entry.file.inj (Option.some.inj (hat.symm.trans hfound))
      exact .inr (.inr ⟨⟨cause, rfl⟩, hwritten.found⟩)
    · exact .inl (at?_of_written hwritten hp hat)
  target _ p content hfind := by
    -- where there is a file at the path, the temporary file can take its place
    have htarget : ∃ new, written.find path = .ok (p, .file new) := by
      by_cases hp : p = place
      · subst hp
        exact ⟨_, hwritten.keeps.find (find_prepared path hfind) (at?_of_find hwritten.found)⟩
      · exact ⟨content, find_written hwritten hfind hp⟩
    obtain ⟨new, htarget⟩ := htarget
    obtain ⟨renamed, hrenamed⟩ := exists_rename hwritten.found htarget
    rw [hrename] at hrenamed
    cases hrenamed
  failed e he := by
    cases he
    exact .inr ⟨cause, place, _, rfl, hwritten.found⟩

lemma saves_of_renamed {renamed : FileTree} {target : List String}
    (hrenamed : FileTree.Renamed written renamed (withExtension path "tmp") path place target
      (.bytes (encodeUtf8 (pretty c.toJson)))) : Saves files path c (renamed, .ok ()) where
  done _ := ⟨target, hrenamed.target⟩
  others other p content hfind htemporary hpath := by
    have hp := ne_of_written hwritten hfind htemporary
    have hfound := find_written hwritten hfind hp
    have hbelow := (linked_of_find hfound).not_below (at?_of_find hwritten.found) hp.symm
    refine hrenamed.keeps.find hfound ?_
    rw [hrenamed.others p _ hbelow, at?_of_find hfound]
    rintro rfl
    exact hpath _ hrenamed.target
  fresh p content hat := by
    by_cases hp : p = target
    · subst hp
      have hfound := at?_of_find hrenamed.target
      obtain rfl := Entry.file.inj (Option.some.inj (hat.symm.trans hfound))
      exact .inr (.inl hrenamed.target)
    · obtain ⟨hat', hne⟩ := hrenamed.fresh p _ hp hat
      exact .inl (at?_of_written hwritten hne hat')
  target h := by cases h
  failed _ h := by cases h

end

/-- Saving leaves all other files as they are, but for one that has the name of the temporary file,
and where it fails, also the file that it would have replaced. -/
theorem saves_of_save (files : FileTree) (path : String) (c : Config) :
    Saves files path c (save files path c) := by
  have hcomes := comes_of_save files path c
  generalize save files path c = saved at hcomes
  cases hcomes with
  | directory around cause => exact saves_of_widens (widens_prepared files path)
  | temporary cause => exact saves_of_widens (widens_prepared files path)
  | rename hwrite hrename =>
    obtain ⟨place, hwritten⟩ := exists_written hwrite
    exact saves_of_written hwritten hrename
  | done hwrite hrename =>
    obtain ⟨place, target, hwritten, hrenamed⟩ := exists_written_renamed hwrite hrename
    exact saves_of_renamed hwritten hrenamed

/-- A file that has the name of the temporary file is lost. -/
theorem temporary_lost :
    let files := FileTree.place {} "x.tmp" (.file (.bytes (encodeUtf8 "keep")))
    let saved := save files "x.json" default
    saved.2.isOk ∧ files.isFile "x.tmp" ∧ !saved.1.isFile "x.tmp" := by
  decide +kernel

end Xref.Config
