import Xref.Files.Tree
import Xref.Json.Read
import Xref.Json.Write
import Xref.Text.Glob

/-!
# Configurations

Which files count when an environment is built. A configuration is kept in a JSON file, and a field
that is missing there has its default.
-/
namespace Xref

open Files Text

structure Config where
  version : Nat
  /-- Patterns of source files to index, relative to a source root. -/
  sourceInclude : List String
  sourceExclude : List String
  /-- Extensions of files that are class archives. -/
  libraryExtensions : List String
  /-- Larger source files are left out. -/
  maxFileSize : Nat
  /-- Whether archives inside library directories count. -/
  indexNestedArchives : Bool
  deriving Repr, DecidableEq, Inhabited

namespace Config

def fileName : String := "javarefs.json"

def default : Config where
  version := 1
  sourceInclude := ["**/*.java"]
  sourceExclude :=
    ["target/**", "build/**", "out/**", ".git/**", ".gradle/**", ".idea/**",
     "**/package-info.java", "**/module-info.java"]
  libraryExtensions := ["jar", "zip"]
  maxFileSize := 4 * 1048576
  indexNestedArchives := true

def toJson (c : Config) : Json :=
  .object
    [("version", .ofNat c.version),
     ("source_include", .strings c.sourceInclude),
     ("source_exclude", .strings c.sourceExclude),
     ("library_extensions", .strings c.libraryExtensions),
     ("max_file_size", .ofNat c.maxFileSize),
     ("index_nested_archives", .bool c.indexNestedArchives)]

def fieldNames : List String :=
  ["version", "source_include", "source_exclude", "library_extensions", "max_file_size",
   "index_nested_archives"]

/-- The values of the fields in order. An object may have other fields too, but no field twice; an
array has the values of the first fields. -/
def fieldValues : Json → Option (List (Option Json))
  | .object fields =>
    fieldNames.mapM fun name =>
      match fields.filter fun f => f.1 == name with
      | [] => some none
      | [f] => some (some f.2)
      | _ => none
  | .array items =>
    if items.length ≤ fieldNames.length then
      some ((List.range fieldNames.length).map fun i => items[i]?)
    else none
  | _ => none

def valueOr {α : Type} (decode : Json → Option α) (default : α) : Option Json → Option α
  | some j => decode j
  | none => some default

def ofJson? (j : Json) : Option Config := do
  match ← fieldValues j with
  | [version, sourceInclude, sourceExclude, libraryExtensions, maxFileSize, nested] =>
    return {
      version := ← valueOr (Json.nat? Json.bound32) default.version version
      sourceInclude := ← valueOr Json.strings? default.sourceInclude sourceInclude
      sourceExclude := ← valueOr Json.strings? default.sourceExclude sourceExclude
      libraryExtensions := ← valueOr Json.strings? default.libraryExtensions libraryExtensions
      maxFileSize := ← valueOr (Json.nat? Json.bound64) default.maxFileSize maxFileSize
      indexNestedArchives := ← valueOr Json.bool? default.indexNestedArchives nested }
  | _ => none

inductive Error where
  | unreadable (path : String) (cause : FileError)
  | malformed (path : String)
  | directory (path : String) (cause : FileError)
  | temporary (path : String) (cause : FileError)
  | rename (source target : String) (cause : FileError)
  deriving Repr, DecidableEq

def quoted (path : String) : String := "\x27" ++ path ++ "\x27"

def Error.message : Error → String
  | unreadable path cause => "failed to read config file " ++ quoted path ++ ": " ++ cause.message
  | malformed path => "failed to parse config file " ++ quoted path
  | directory path cause =>
    "failed to create config directory " ++ quoted path ++ ": " ++ cause.message
  | temporary path cause =>
    "failed to write temporary config file " ++ quoted path ++ ": " ++ cause.message
  | rename source target cause =>
    "failed to rename temporary config file " ++ quoted source ++ " to " ++ quoted target ++ ": " ++
      cause.message

/-- Loads a configuration. Where there is no file the default counts. -/
def load (files : FileTree) (path : String) : Except Error Config :=
  if !files.contains path then .ok default
  else match files.readText path with
    | .error cause => .error (.unreadable path cause)
    | .ok text =>
      match (Json.read? text).bind ofJson? with
      | some c => .ok c
      | none => .error (.malformed path)

/-- Saves a configuration: first to a temporary file beside `path`, which then takes its place. The
files as they are afterwards come with the result, which may be an error. -/
def save (files : FileTree) (path : String) (c : Config) : FileTree × Except Error Unit :=
  let around := ((Path.parent? path).filter fun p => !p.isEmpty).getD ""
  match files.makeDirectories (path.length + 1) around with
  | (files, .error cause) => (files, .error (.directory around cause))
  | (files, .ok ()) =>
    let temporary := Path.withExtension path "tmp"
    match files.write temporary (encodeUtf8 (Json.pretty c.toJson)) with
    | .error cause => (files, .error (.temporary temporary cause))
    | .ok files =>
      match files.rename temporary path with
      | .error cause => (files, .error (.rename temporary path cause))
      | .ok files => (files, .ok ())

/-- Whether a source file counts, by its path relative to its root. -/
def indexesSource (c : Config) (path : String) : Bool :=
  !(c.sourceExclude.any fun p => globMatches p path) &&
    c.sourceInclude.any fun p => globMatches p path

def lowerAscii (s : String) : List Char := s.toList.map Char.toLower

def isArchive (c : Config) (path : String) : Bool :=
  (Path.extension? path).any fun e =>
    c.libraryExtensions.any fun known => lowerAscii known == lowerAscii e

end Config

end Xref
