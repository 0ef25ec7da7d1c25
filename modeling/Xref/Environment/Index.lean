import Xref.ClassFile.Describe
import Xref.Config
import Xref.Declaration.Collect
import Xref.Syntax.Parse

/-!
# Indexing source and library paths

Source files are read at once. Of libraries only the places of their classes are kept: the entry of
an archive, or the path of a file, which is read when the class is asked for. What is found first
counts. Paths that cannot be read are noted and otherwise skipped.
-/
namespace Xref.Environment

open ClassFile Declaration Files Java Syntax Text

structure Diagnostic where
  path : String
  message : String
  deriving Repr, DecidableEq, Inhabited

/-- `table` with an entry at its end, unless it has one of that name. -/
def addFirst {α : Type} (table : List (String × α)) (name : String) (value : α) :
    List (String × α) :=
  if (table.lookup name).isSome then table else table ++ [(name, value)]

structure Sources where
  types : List (String × TypeInfo) := []
  files : Nat := 0
  diagnostics : List Diagnostic := []

namespace Sources

def diagnose (s : Sources) (path message : String) : Sources :=
  { s with diagnostics := s.diagnostics ++ [⟨path, message⟩] }

/-- The types that a source file declares. Errors in it are passed over. -/
def typesOf (path text : String) : List TypeInfo :=
  let source := text.toList
  (Declarations.ofUnit { source := source, origin := .source path, includeLocal := false }
    (parseOrSalvage source)).types

def addFile (files : FileTree) (s : Sources) (path : String) : Sources :=
  match files.readText path with
  | .error cause => s.diagnose path ("failed to read source file: " ++ cause.message)
  | .ok text =>
    { s with
      files := s.files + 1
      types := (typesOf path text).foldl (fun table t => addFirst table t.name t) s.types }

def fits (config : Config) (files : FileTree) (path : String) : Bool :=
  match files.read path with
  | .ok (.bytes bs) => bs.length ≤ config.maxFileSize
  | _ => true

def addRoot (config : Config) (files : FileTree) (s : Sources) (root : String) : Sources :=
  if files.isFile root then s.addFile files root
  else if files.isDirectory root then
    (files.walk root).foldl (fun s (path, relative) =>
      if config.indexesSource (replaceChar '\x5c' '/' relative) && fits config files path then
        s.addFile files path
      else s) s
  else s.diagnose root "source path does not exist"

end Sources

inductive ClassPlace where
  | file (path : String)
  /-- An entry of an archive, with its bytes. -/
  | archived (archive entry : String) (bytes : List UInt8)
  deriving Repr, DecidableEq, Inhabited

namespace ClassPlace

def library : ClassPlace → String
  | file path => path
  | archived archive _ _ => archive

def load? (files : FileTree) (place : ClassPlace) : Option TypeInfo := do
  let bytes ← match place with
    | file path =>
      match files.read path with
      | .ok (.bytes bs) => some bs
      | _ => none
    | archived _ _ bs => some bs
  let c ← (ClassFile.ofBytes bytes).toOption
  return c.describe place.library

end ClassPlace

structure Libraries where
  classes : List (String × ClassPlace) := []
  archives : List String := []
  diagnostics : List Diagnostic := []

def emptyArchive : List UInt8 := [0x50, 0x4B, 0x05, 0x06] ++ List.replicate 18 0

/-- The entries of an archive. Of entries with the same name the last one counts. -/
def archiveEntries? : Content → Option (List (String × List UInt8))
  | .archive entries => some entries
  | .bytes bs => if bs == emptyArchive then some [] else none

namespace Libraries

def diagnose (l : Libraries) (path message : String) : Libraries :=
  { l with diagnostics := l.diagnostics ++ [⟨path, message⟩] }

def addArchive (files : FileTree) (l : Libraries) (path : String) : Libraries :=
  match (files.read path).toOption.bind archiveEntries? with
  | none =>
    l.diagnose path
      ("file error: failed to open archive: invalid Zip archive: Could not find EOCD (path: " ++
        path ++ ")")
  | some entries =>
    let classes := entries.foldl (fun table (entry, bytes) =>
      match entryName? entry with
      | some name =>
        addFirst table name (.archived path entry ((entries.reverse.lookup entry).getD bytes))
      | none => table) l.classes
    let isOpen := l.archives.any fun a => Path.components a == Path.components path
    { l with classes := classes, archives := if isOpen then l.archives else l.archives ++ [path] }

/-- Adds the classes of a directory. Archives in it come after its class files. -/
def addDirectory (config : Config) (files : FileTree) (l : Libraries) (root : String) : Libraries :=
  let isNested := fun (path : String) => config.indexNestedArchives && config.isArchive path
  let found := files.walk root
  let classes := found.foldl (fun table (path, relative) =>
    if isNested path then table
    else match entryName? (replaceChar '\x5c' '/' relative) with
      | some name => addFirst table name (.file path)
      | none => table) l.classes
  ((found.map Prod.fst).filter isNested).foldl (addArchive files) { l with classes := classes }

def addLibrary (config : Config) (files : FileTree) (l : Libraries) (path : String) : Libraries :=
  if files.isDirectory path then l.addDirectory config files path
  else if files.isFile path then l.addArchive files path
  else l.diagnose path "library path does not exist"

end Libraries

end Xref.Environment
